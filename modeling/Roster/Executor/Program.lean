import Roster.Data.Path
import Roster.Data.Places
import Roster.Scheduler.Reason

/-!
# Whether a job's program is on this machine

`check_program` looks for the program a command starts with, so that a node without it turns the job
down.  It takes the words of the command apart at white space, where sh goes by its quotes: a piece
of a quoted value can be taken for the program.

`runnable_passes_iff` says when a command that sh can run passes: the first piece of its assignments
that is no assignment of its own, if there is one, has to pass in place of the program.
-/

namespace Roster

/-- `SHELL_WORDS`: sh runs these itself. -/
def shellWords : List String :=
  [".", ":", "[", "alias", "break", "case", "cd", "command", "continue", "eval", "exec", "exit",
    "export", "for", "if", "read", "readonly", "return", "set", "shift", "source", "test", "time",
    "trap", "ulimit", "umask", "unset", "until", "wait", "while"]

/-- The characters sh expands or runs something by. -/
def shellChars : List Char := "$`'\"\\()\x7b\x7d[]*?~;&|<>!#=".toList

/-- `str::split_whitespace`. -/
def splitWhitespace (text : List Char) : List (List Char) :=
  (text.splitOnP isWhitespace).filter fun piece => !piece.isEmpty

/-- A variable's name. -/
def isVariable : List Char → Bool
  | [] => false
  | c :: cs => (c.isAlpha || c == '_') && (c :: cs).all fun c => c.isAlphanum || c == '_'

/-- `is_assignment`: `NAME=value`. -/
def isAssignment (word : List Char) : Bool :=
  word.contains '=' && isVariable (word.takeWhile (· ≠ '='))

/-- Where the daemon runs: its working directory, its `PATH` and the files of the machine. -/
structure Surroundings where
  cwd : String
  path : String
  isExecutable : List Char → Bool

/-- The lookup of a program, relative to the working directory or on `PATH`. -/
def Surroundings.finds (env : Surroundings) (program : List Char) : Bool :=
  if '/' ∈ program then env.isExecutable (Path.join env.cwd.toList program)
  else (env.path.toList.splitOn ':').any fun dir => env.isExecutable (Path.join dir program)

/-- `check_program` on the words of the command. -/
def checkWords (env : Surroundings) (words : List (List Char)) : Except String Unit :=
  let assignments := words.takeWhile isAssignment
  if assignments.any fun word => "PATH=".toList.isPrefixOf word then .ok ()
  else match words[assignments.length]? with
    | none => .ok ()
    | some program =>
      if shellWords.contains (String.ofList program) || program.any shellChars.contains then .ok ()
      else if env.finds program then .ok ()
      else if '/' ∈ program then
        .error s!"'{String.ofList program}' is not an executable file (working directory {env.cwd})"
      else
        .error (s!"'{String.ofList program}' not found on PATH {env.path} " ++
          "(jobs don't read .bashrc; give the program's full path)")

/-- `check_program`. -/
def checkProgram (env : Surroundings) (command : String) : Except String Unit :=
  checkWords env (splitWhitespace command.toList)

/-! ### How sh reads a command -/

/-- What ends a word outside of quotes. -/
def isBlank (c : Char) : Bool := c = ' ' || c = '\t'

def isDelimiter (c : Char) : Bool :=
  isBlank c || c = '\n' || [';', '&', '|', '<', '>', '(', ')'].contains c

/-- Where in its quotes a word is. -/
inductive Quoting
  | plain
  | single
  | double
  deriving DecidableEq, Repr

/-- Read one word; none if a quote stays open.  The next `taken` characters belong to the word as
they are, and `expansion` says how many more characters an expansion has that starts here. -/
def shWord (expansion : List Char → Option ℕ) :
    Quoting → ℕ → List Char → Option (List Char × List Char)
  | .plain, 0, [] => some ([], [])
  | _, _, [] => none
  | quoting, taken + 1, c :: cs => (shWord expansion quoting taken cs).map (Prod.map (c :: ·) id)
  | .plain, 0, c :: cs =>
    if isDelimiter c then some ([], c :: cs)
    else if c = '$' ∨ c = '`' then (expansion (c :: cs)).bind fun taken =>
      (shWord expansion .plain taken cs).map (Prod.map (c :: ·) id)
    else (shWord expansion
      (if c = '\'' then .single else if c = '"' then .double else .plain)
      (if c = '\\' then 1 else 0) cs).map (Prod.map (c :: ·) id)
  | .single, 0, c :: cs =>
    (shWord expansion (if c = '\'' then .plain else .single) 0 cs).map (Prod.map (c :: ·) id)
  | .double, 0, c :: cs =>
    if c = '$' ∨ c = '`' then (expansion (c :: cs)).bind fun taken =>
      (shWord expansion .double taken cs).map (Prod.map (c :: ·) id)
    else (shWord expansion (if c = '"' then .plain else .double) (if c = '\\' then 1 else 0)
      cs).map (Prod.map (c :: ·) id)

/-- The command is assignment words, then a program, then its arguments. -/
inductive ShCommand (expansion : List Char → Option ℕ) :
    List Char → List (List Char) → List Char → List Char → Prop
  | blank {c : Char} {text : List Char} {words : List (List Char)} {program arguments : List Char}
      (hblank : isBlank c = true) (hrest : ShCommand expansion text words program arguments) :
      ShCommand expansion (c :: text) words program arguments
  | assignment {text word rest : List Char} {words : List (List Char)}
      {program arguments : List Char} (hword : shWord expansion .plain 0 text = some (word, rest))
      (hassignment : isAssignment word = true)
      (hrest : ShCommand expansion rest words program arguments) :
      ShCommand expansion text (word :: words) program arguments
  | program {text program arguments : List Char}
      (hword : shWord expansion .plain 0 text = some (program, arguments))
      (hne : program ≠ []) (hprogram : isAssignment program = false) :
      ShCommand expansion text [] program arguments

/-- A word that sh takes as it is. -/
def IsPlainWord (word : List Char) : Prop :=
  ∀ c ∈ word, isWhitespace c = false ∧ c ∉ shellChars

/-! ### Pieces -/

section Pieces

variable {text rest : List Char} {c : Char}

@[simp] theorem splitWhitespace_nil : splitWhitespace [] = [] := rfl

theorem splitWhitespace_append_cons (text rest : List Char) (hc : isWhitespace c = true) :
    splitWhitespace (text ++ c :: rest) = splitWhitespace text ++ splitWhitespace rest := by
  simp only [splitWhitespace, List.splitOnP_append_cons text rest hc, List.filter_append]

theorem splitWhitespace_cons (rest : List Char) (hc : isWhitespace c = true) :
    splitWhitespace (c :: rest) = splitWhitespace rest := by
  simpa using splitWhitespace_append_cons [] rest hc

/-- A text without white space is one piece. -/
theorem splitWhitespace_eq_singleton (hne : text ≠ []) (h : ∀ c ∈ text, isWhitespace c = false) :
    splitWhitespace text = [text] := by
  rw [splitWhitespace, List.splitOnP_eq_singleton h]
  simp [hne]

/-- The first piece goes up to the first white space. -/
theorem splitWhitespace_eq_cons (rest : List Char) (hne : text ≠ [])
    (h : ∀ c ∈ text, isWhitespace c = false) :
    ∃ more, splitWhitespace (text ++ rest) =
      (text ++ rest.takeWhile fun c => !isWhitespace c) :: more := by
  have hsplit := List.takeWhile_append_dropWhile (p := fun c => !isWhitespace c) (l := rest)
  set front := rest.takeWhile fun c => !isWhitespace c with hfront
  have hnone : ∀ c ∈ text ++ front, isWhitespace c = false := by
    intro c hc
    rcases List.mem_append.1 hc with hc | hc
    · exact h c hc
    · simpa using List.mem_takeWhile_imp hc
  -- without white space behind it the text is one piece
  cases hback : rest.dropWhile fun c => !isWhitespace c with
  | nil =>
    rw [hback, List.append_nil] at hsplit
    rw [← hsplit]
    exact ⟨[], splitWhitespace_eq_singleton (by simp [hne]) hnone⟩
  | cons c back =>
    have hc : isWhitespace c = true := by
      have hhead := List.head?_dropWhile_not (fun c => !isWhitespace c) rest
      simpa [hback] using hhead
    rw [← hsplit, hback, ← List.append_assoc, splitWhitespace_append_cons _ _ hc,
      splitWhitespace_eq_singleton (by simp [hne]) hnone]
    exact ⟨splitWhitespace back, rfl⟩

theorem isWhitespace_of_isBlank (h : isBlank c = true) : isWhitespace c = true := by
  have hcases : c = ' ' ∨ c = '\t' := by simpa [isBlank] using h
  rcases hcases with rfl | rfl <;> decide

/-- What ends a word is white space or an operator. -/
theorem isDelimiter_cases (h : isDelimiter c = true) :
    isWhitespace c = true ∨ c ∈ shellChars ∧ c.isAlphanum = false ∧ c ≠ '_' ∧ c ≠ '=' := by
  have hcases : isBlank c = true ∨ c = '\n' ∨ c ∈ [';', '&', '|', '<', '>', '(', ')'] := by
    simpa [isDelimiter, or_assoc] using h
  rcases hcases with hblank | rfl | hoperator
  · exact .inl (isWhitespace_of_isBlank hblank)
  · exact .inl (by decide)
  · right
    simp only [List.mem_cons, List.not_mem_nil, or_false] at hoperator
    rcases hoperator with rfl | rfl | rfl | rfl | rfl | rfl | rfl <;> decide

end Pieces

/-! ### Words -/

section Words

variable {expansion : List Char → Option ℕ} {quoting : Quoting} {taken : ℕ}
  {text word rest program arguments : List Char} {words : List (List Char)}

/-- What ends at a delimiter, or with the text. -/
def EndsWord (rest : List Char) : Prop := ∀ c cs, rest = c :: cs → isDelimiter c = true

/-- One more character in front of what was read. -/
theorem push_eq_some {c : Char} {cs : List Char} {x : Option (List Char × List Char)}
    (h : x.map (Prod.map (c :: ·) id) = some (word, rest))
    (hx : ∀ {word}, x = some (word, rest) → cs = word ++ rest ∧ EndsWord rest) :
    c :: cs = word ++ rest ∧ EndsWord rest := by
  obtain ⟨⟨word', rest'⟩, hread, heq⟩ := Option.map_eq_some_iff.1 h
  obtain ⟨rfl, rfl⟩ := Prod.mk.inj heq
  obtain ⟨rfl, hends⟩ := hx hread
  exact ⟨rfl, hends⟩

/-- A word is the front of the text, up to what ends it. -/
theorem shWord_append (h : shWord expansion quoting taken text = some (word, rest)) :
    text = word ++ rest ∧ EndsWord rest := by
  fun_induction shWord expansion quoting taken text generalizing word with
  | case1 =>
    obtain ⟨rfl, rfl⟩ := Prod.mk.inj (Option.some.inj h)
    exact ⟨rfl, fun c cs heq => by cases heq⟩
  | case2 => cases h
  | case3 quoting taken c cs ih => exact push_eq_some h ih
  | case4 c cs hdelimiter =>
    obtain ⟨rfl, rfl⟩ := Prod.mk.inj (Option.some.inj h)
    refine ⟨rfl, fun c' cs' heq => ?_⟩
    obtain ⟨rfl, -⟩ := List.cons.inj heq
    exact hdelimiter
  | case5 c cs hdelimiter hexpansion ih =>
    obtain ⟨taken, -, h⟩ := Option.bind_eq_some_iff.1 h
    exact push_eq_some h (ih taken)
  | case6 c cs hdelimiter hexpansion ih => exact push_eq_some h ih
  | case7 c cs ih => exact push_eq_some h ih
  | case8 c cs hexpansion ih =>
    obtain ⟨taken, -, h⟩ := Option.bind_eq_some_iff.1 h
    exact push_eq_some h (ih taken)
  | case9 c cs hexpansion ih => exact push_eq_some h ih

/-- No word starts at a delimiter. -/
theorem shWord_delimiter {c : Char} {cs : List Char} (hdelimiter : isDelimiter c = true)
    (h : shWord expansion .plain 0 (c :: cs) = some (word, rest)) : word = [] := by
  rw [shWord, if_pos hdelimiter] at h
  exact (Prod.mk.inj (Option.some.inj h)).1.symm

theorem isAssignment_nil : isAssignment [] = false := rfl

/-- A command does not start with an operator, and it is not empty. -/
theorem ShCommand.starts (h : ShCommand expansion text words program arguments) :
    ∃ c cs, text = c :: cs ∧ (isDelimiter c = true → isBlank c = true) := by
  have hword : ∀ {word rest}, shWord expansion .plain 0 text = some (word, rest) → word ≠ [] →
      ∃ c cs, text = c :: cs ∧ (isDelimiter c = true → isBlank c = true) := by
    intro word rest hread hne
    cases text with
    | nil =>
      rw [shWord] at hread
      exact absurd (Prod.mk.inj (Option.some.inj hread)).1.symm hne
    | cons c cs =>
      exact ⟨c, cs, rfl, fun hdelimiter => absurd (shWord_delimiter hdelimiter hread) hne⟩
  cases h with
  | blank hblank _ => exact ⟨_, _, rfl, fun _ => hblank⟩
  | assignment hread hassignment _ =>
    refine hword hread fun hnil => ?_
    rw [hnil, isAssignment_nil] at hassignment
    cases hassignment
  | program hread hne _ => exact hword hread hne

/-- The pieces of a command: those of its assignments, then the program with what follows it. -/
theorem ShCommand.splitWhitespace_eq (h : ShCommand expansion text words program arguments) :
    splitWhitespace text = words.flatMap splitWhitespace ++ splitWhitespace (program ++ arguments) ∧
      program ≠ [] ∧ isAssignment program = false ∧ EndsWord arguments := by
  induction h with
  | blank hblank _ ih =>
    rw [splitWhitespace_cons _ (isWhitespace_of_isBlank hblank)]
    exact ih
  | assignment hread hassignment hrest ih =>
    obtain ⟨hpieces, hprogram⟩ := ih
    obtain ⟨rfl, hends⟩ := shWord_append hread
    obtain ⟨c, cs, rfl, hblank⟩ := hrest.starts
    have hc := isWhitespace_of_isBlank (hblank (hends c cs rfl))
    rw [splitWhitespace_append_cons _ _ hc, ← splitWhitespace_cons cs hc, hpieces,
      List.flatMap_cons, List.append_assoc]
    exact ⟨rfl, hprogram⟩
  | program hread hne hprogram =>
    obtain ⟨rfl, hends⟩ := shWord_append hread
    exact ⟨rfl, hne, hprogram, hends⟩

end Words

/-! ### Which commands pass -/

/-- The check lets this word pass as a program. -/
def Surroundings.Passes (env : Surroundings) (word : List Char) : Prop :=
  String.ofList word ∈ shellWords ∨ (∃ c ∈ word, c ∈ shellChars) ∨ env.finds word = true

section Checks

variable {env : Surroundings} {words more : List (List Char)} {word : List Char}

/-- What the check asks of the pieces of a command. -/
theorem checkWords_ok_iff : checkWords env words = .ok () ↔
    (∃ word ∈ words.takeWhile isAssignment, "PATH=".toList <+: word) ∨
      ∀ word, words.find? (fun word => !isAssignment word) = some word → env.Passes word := by
  unfold checkWords
  simp only [getElem?_length_takeWhile, List.any_eq_true, List.isPrefixOf_iff_prefix]
  by_cases hpath : ∃ word ∈ words.takeWhile isAssignment, "PATH=".toList <+: word
  · rw [if_pos hpath]
    exact iff_of_true rfl (.inl hpath)
  · rw [if_neg hpath]
    cases hfind : words.find? fun word => !isAssignment word with
    | none => simp
    | some program =>
      simp only [hpath, false_or, Option.some.injEq, forall_eq', Surroundings.Passes]
      by_cases hshell : shellWords.contains (String.ofList program) = true ∨
          program.any shellChars.contains = true
      · rw [if_pos (by simpa using hshell)]
        refine iff_of_true rfl ?_
        rcases hshell with hword | hchars
        · exact .inl (by simpa using hword)
        · exact .inr (.inl (by simpa using hchars))
      · rw [if_neg (by simpa using hshell)]
        have hnone : ¬ String.ofList program ∈ shellWords ∧ ¬ ∃ c ∈ program, c ∈ shellChars := by
          simpa using hshell
        cases hfinds : env.finds program with
        | true => simp
        | false =>
          refine iff_of_false ?_ ?_
          · by_cases hslash : '/' ∈ program <;> simp [hslash]
          · rintro (hword | hchars | hfound)
            · exact hnone.1 hword
            · exact hnone.2 hchars
            · cases hfound

theorem isVariable_mem {name : List Char} (h : isVariable name = true) {c : Char} (hc : c ∈ name) :
    c.isAlphanum = true ∨ c = '_' := by
  cases name with
  | nil => cases hc
  | cons a as =>
    have hall := (Bool.and_eq_true_iff.1 h).2
    simpa using List.all_eq_true.1 hall c hc

/-- What follows a plain program without white space between makes sh run something else, which the
check leaves to sh. -/
theorem passes_program {program arguments : List Char} (hplain : IsPlainWord program)
    (hends : EndsWord arguments) (hprogram : isAssignment program = false)
    (hfound : env.finds program = true) :
    isAssignment (program ++ arguments.takeWhile fun c => !isWhitespace c) = false ∧
      env.Passes (program ++ arguments.takeWhile fun c => !isWhitespace c) := by
  cases arguments with
  | nil =>
    rw [List.takeWhile_nil, List.append_nil]
    exact ⟨hprogram, .inr (.inr hfound)⟩
  | cons c cs =>
    cases hc : isWhitespace c with
    | true =>
      rw [List.takeWhile_cons_of_neg (by simp [hc]), List.append_nil]
      exact ⟨hprogram, .inr (.inr hfound)⟩
    | false =>
      obtain ⟨hshell, halnum, hunderscore, hequals⟩ : c ∈ shellChars ∧ c.isAlphanum = false ∧
          c ≠ '_' ∧ c ≠ '=' := by
        have hcases := isDelimiter_cases (hends c cs rfl)
        rwa [hc, or_iff_right Bool.false_ne_true] at hcases
      rw [List.takeWhile_cons_of_pos (by simp [hc])]
      refine ⟨?_, .inr (.inl ⟨c, by simp, hshell⟩)⟩
      rw [isAssignment, Bool.and_eq_false_iff]
      refine .inr (Bool.eq_false_iff.2 fun hvariable => ?_)
      -- the name before the first `=` would go over the operator
      have hnone : ∀ a ∈ program, decide (a ≠ '=') = true := fun a ha => by
        refine decide_eq_true fun heq => (hplain a ha).2 ?_
        rw [heq]
        decide
      rw [List.takeWhile_append_of_pos hnone, List.takeWhile_cons_of_pos (by simpa using hequals)]
        at hvariable
      rcases isVariable_mem hvariable (List.mem_append_right _ List.mem_cons_self) with h | h
      · rw [halnum] at h
        cases h
      · exact hunderscore h

/-- **Which runnable commands pass**: with a plain program that is found, exactly those whose
assignments, taken apart at white space, have no piece that is taken for a program and turned down:
all pieces are assignments of their own, or the first that is not passes as a program, or a piece
before it sets `PATH`. -/
theorem runnable_passes_iff (env : Surroundings) (expansion : List Char → Option ℕ)
    (command : String) (words : List (List Char)) (program arguments : List Char)
    (hcommand : ShCommand expansion command.toList words program arguments)
    (hplain : IsPlainWord program) (hfound : env.finds program = true) :
    checkProgram env command = .ok () ↔
      (∃ piece ∈ (words.flatMap splitWhitespace).takeWhile isAssignment,
        "PATH=".toList <+: piece) ∨
      ∀ piece, (words.flatMap splitWhitespace).find? (fun piece => !isAssignment piece) =
        some piece → env.Passes piece := by
  obtain ⟨hpieces, hne, hprogram, hends⟩ := hcommand.splitWhitespace_eq
  obtain ⟨more, hmore⟩ := splitWhitespace_eq_cons arguments hne fun c hc => (hplain c hc).1
  obtain ⟨hlast, hpasses⟩ := passes_program hplain hends hprogram hfound
  rw [checkProgram, hpieces, hmore, checkWords_ok_iff, List.find?_append,
    List.find?_cons_of_pos (by simp [hlast]), takeWhile_append_cons _ _ hlast]
  refine or_congr Iff.rfl ?_
  cases hfind : (words.flatMap splitWhitespace).find? fun piece => !isAssignment piece with
  | none => simpa using hpasses
  | some piece => simp

/-! ### A quoted blank -/

/-- A machine with one program, in `/bin`. -/
def onlyMake : Surroundings where
  cwd := "/srv"
  path := "/bin"
  isExecutable file := file == "/bin/make".toList

/-- The value of `FLAGS` has two blanks in it. -/
def quotedCommand : String := "FLAGS='x y z' make all"

theorem quotedCommand_sh (expansion : List Char → Option ℕ) :
    ShCommand expansion quotedCommand.toList ["FLAGS='x y z'".toList] "make".toList
      " all".toList := by
  have hblank : isBlank ' ' = true := by decide
  refine @ShCommand.assignment _ _ _ " make all".toList _ _ _ rfl (by decide) (.blank hblank ?_)
  exact .program rfl (by decide) (by decide)

theorem quotedCommand_plain : IsPlainWord "make".toList := by
  have hmake : "make".toList = ['m', 'a', 'k', 'e'] := rfl
  rw [hmake, IsPlainWord]
  simp only [List.forall_mem_cons, List.not_mem_nil, false_imp_iff, implies_true, and_true]
  decide

/-- sh would run `make`; the check looks for `y`. -/
theorem runnable_turned_down :
    ShCommand (fun _ => none) quotedCommand.toList ["FLAGS='x y z'".toList] "make".toList
        " all".toList ∧
      IsPlainWord "make".toList ∧ onlyMake.finds "make".toList = true ∧
      checkProgram onlyMake quotedCommand = .error
        ("'y' not found on PATH /bin " ++
          "(jobs don't read .bashrc; give the program's full path)") :=
  ⟨quotedCommand_sh _, quotedCommand_plain, by decide +kernel, by decide +kernel⟩

theorem quotedCommand_passes_iff : checkProgram onlyMake quotedCommand = .ok () ↔
    (∃ piece ∈ (["FLAGS='x y z'".toList].flatMap splitWhitespace).takeWhile isAssignment,
      "PATH=".toList <+: piece) ∨
    ∀ piece, (["FLAGS='x y z'".toList].flatMap splitWhitespace).find?
      (fun piece => !isAssignment piece) = some piece → onlyMake.Passes piece :=
  runnable_passes_iff onlyMake (fun _ => none) quotedCommand _ _ _ (quotedCommand_sh _)
    quotedCommand_plain (by decide +kernel)

end Checks

end Roster
