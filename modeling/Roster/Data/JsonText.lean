import Roster.Data.Codec

/-!
# JSON texts

Documents as compact JSON, and a reader of JSON.  Numbers are integers: a fraction or an exponent is
not read.

* `value_write` : what is written is read back.
* `newline_notMem_write` : what is written is one line.
* `read_torn` : no proper prefix of what is written for a mapping can be read.
-/

namespace Roster

namespace Serde

/-- An induction over a document: over its items, and over its keys and values. -/
@[elab_as_elim]
theorem Value.induct {σ : Type} {P : Value σ → Prop} (scalar : ∀ s, P (.scalar s))
    (seq : ∀ items, (∀ item ∈ items, P item) → P (.seq items))
    (map : ∀ entries : List (Value σ × Value σ),
      (∀ entry ∈ entries, P entry.1 ∧ P entry.2) → P (.map entries))
    (value : Value σ) : P value :=
  @Value.rec σ P (fun items => ∀ item ∈ items, P item)
    (fun entries => ∀ entry ∈ entries, P entry.1 ∧ P entry.2)
    (fun entry => P entry.1 ∧ P entry.2) scalar seq map
    (fun _ h => absurd h List.not_mem_nil)
    (fun _ _ hitem hitems => List.forall_mem_cons.2 ⟨hitem, hitems⟩)
    (fun _ h => absurd h List.not_mem_nil)
    (fun _ _ hentry hentries => List.forall_mem_cons.2 ⟨hentry, hentries⟩)
    (fun _ _ hkey hvalue => ⟨hkey, hvalue⟩) value

namespace JsonText

/-! ### Writing -/

/-- A character of a text. -/
def escape (c : Char) : List Char :=
  if c = '"' then ['\\', '"']
  else if c = '\\' then ['\\', '\\']
  else if c = '\x08' then ['\\', 'b']
  else if c = '\t' then ['\\', 't']
  else if c = '\n' then ['\\', 'n']
  else if c = '\x0c' then ['\\', 'f']
  else if c = '\r' then ['\\', 'r']
  else if c.toNat < 32 then
    ['\\', 'u', '0', '0', (c.toNat / 16).digitChar, (c.toNat % 16).digitChar]
  else [c]

def writeText (s : String) : List Char := '"' :: s.toList.flatMap escape ++ ['"']

def writeScalar : Scalar → List Char
  | .null => ['n', 'u', 'l', 'l']
  | .bool true => ['t', 'r', 'u', 'e']
  | .bool false => ['f', 'a', 'l', 's', 'e']
  | .int (.ofNat n) => Nat.toDigits 10 n
  | .int (.negSucc n) => '-' :: Nat.toDigits 10 (n + 1)
  | .text s => writeText s

/-- Parts after the first one, and the end. -/
def joinMore (close : Char) : List (List Char) → List Char
  | [] => [close]
  | part :: parts => ',' :: part ++ joinMore close parts

/-- Parts separated by commas, and the end. -/
def join (close : Char) : List (List Char) → List Char
  | [] => [close]
  | part :: parts => part ++ joinMore close parts

mutual

/-- A document. -/
def write : Value Scalar → List Char
  | .scalar s => writeScalar s
  | .seq items => '[' :: join ']' (writeItems items)
  | .map entries => '\x7b' :: join '\x7d' (writeEntries entries)

def writeItems : List (Value Scalar) → List (List Char)
  | [] => []
  | item :: items => write item :: writeItems items

def writeEntries : List (Value Scalar × Value Scalar) → List (List Char)
  | [] => []
  | entry :: entries => writeEntry entry :: writeEntries entries

def writeEntry : Value Scalar × Value Scalar → List Char
  | (key, value) => write key ++ ':' :: write value

end

/-! ### Reading -/

def isBlank (c : Char) : Bool := c = ' ' || c = '\n' || c = '\t' || c = '\r'

def skip (cs : List Char) : List Char := cs.dropWhile isBlank

def hexDigit? (c : Char) : Option ℕ :=
  if '0' ≤ c ∧ c ≤ '9' then some (c.toNat - '0'.toNat)
  else if 'a' ≤ c ∧ c ≤ 'f' then some (c.toNat - 'a'.toNat + 10)
  else if 'A' ≤ c ∧ c ≤ 'F' then some (c.toNat - 'A'.toNat + 10)
  else none

/-- A character after a backslash. -/
def unescape? (c : Char) : Option Char :=
  if c = '"' ∨ c = '\\' ∨ c = '/' then some c
  else if c = 'b' then some '\x08'
  else if c = 't' then some '\t'
  else if c = 'n' then some '\n'
  else if c = 'f' then some '\x0c'
  else if c = 'r' then some '\r'
  else none

/-- Where in a text a reader is. -/
inductive Scan
  | plain
  | escape
  /-- The first half of a surrogate pair was read; the backslash of the second one comes. -/
  | low (high : ℕ)
  /-- The same, and the `u` comes. -/
  | lowEscape (high : ℕ)
  /-- That many hexadecimal digits come after the next one. -/
  | hex (high : Option ℕ) (left : ℕ) (code : ℕ)

/-- What a code read in hexadecimal adds to a text, or the first half of a pair that it is. -/
def decode (high : Option ℕ) (code : ℕ) : Option (Char ⊕ ℕ) :=
  match high with
  | none =>
    if 0xD800 ≤ code ∧ code < 0xDC00 then some (.inr code)
    else if 0xDC00 ≤ code ∧ code < 0xE000 then none
    else some (.inl (.ofNat code))
  | some high =>
    if 0xDC00 ≤ code ∧ code < 0xE000 then
      some (.inl (.ofNat (0x10000 + (high - 0xD800) * 0x400 + (code - 0xDC00))))
    else none

/-- A character more. -/
def grow (c : Char) (result : Option (List Char × List Char)) : Option (List Char × List Char) :=
  result.map fun (s, rest) => (c :: s, rest)

/-- The rest of a text, up to its end. -/
def text : Scan → List Char → Option (List Char × List Char)
  | _, [] => none
  | .plain, c :: cs =>
    if c = '"' then some ([], cs)
    else if c = '\\' then text .escape cs
    else if c.toNat < 32 then none
    else grow c (text .plain cs)
  | .escape, c :: cs =>
    if c = 'u' then text (.hex none 3 0) cs
    else match unescape? c with
      | some d => grow d (text .plain cs)
      | none => none
  | .low high, c :: cs => if c = '\\' then text (.lowEscape high) cs else none
  | .lowEscape high, c :: cs => if c = 'u' then text (.hex (some high) 3 0) cs else none
  | .hex high left code, c :: cs =>
    match hexDigit? c with
    | none => none
    | some digit => match left with
      | left + 1 => text (.hex high left (16 * code + digit)) cs
      | 0 => match decode high (16 * code + digit) with
        | none => none
        | some (.inl d) => grow d (text .plain cs)
        | some (.inr high) => text (.low high) cs

/-- A number without a sign. -/
def natural (cs : List Char) : Option (ℕ × List Char) :=
  let digits := cs.takeWhile Char.isDigit
  let rest := cs.dropWhile Char.isDigit
  if digits = [] ∨ (digits.head? = some '0' ∧ digits ≠ ['0']) ∨
    rest.head? = some '.' ∨ rest.head? = some 'e' ∨ rest.head? = some 'E' then none
  else some (Nat.ofDigitChars 10 digits 0, rest)

def number (cs : List Char) : Option (ℤ × List Char) :=
  match cs with
  | '-' :: cs => (natural cs).bind fun (n, rest) => if n = 0 then none else some (-n, rest)
  | cs => (natural cs).map fun (n, rest) => (n, rest)

section Many

variable {α : Type} (item : List Char → Option (α × List Char)) (close : Char)

/-- Items after the first one, up to the end. -/
def more : ℕ → List Char → Option (List α × List Char)
  | 0, _ => none
  | n + 1, cs => match skip cs with
    | [] => none
    | c :: cs =>
      if c = close then some ([], cs)
      else if c = ',' then do
        let (a, cs) ← item cs
        let (as, cs) ← more n cs
        return (a :: as, cs)
      else none

/-- Items separated by commas, up to the end. -/
def many (n : ℕ) (cs : List Char) : Option (List α × List Char) :=
  match skip cs with
  | [] => none
  | c :: rest =>
    if c = close then some ([], rest)
    else do
      let (a, cs) ← item cs
      let (as, cs) ← more item close n cs
      return (a :: as, cs)

end Many

/-- A key and its value. -/
def entry (value : List Char → Option (Value Scalar × List Char)) (cs : List Char) :
    Option ((Value Scalar × Value Scalar) × List Char) :=
  match skip cs with
  | '"' :: cs => do
    let (name, cs) ← text .plain cs
    match skip cs with
    | ':' :: cs => do
      let (v, cs) ← value cs
      return ((key (String.ofList name), v), cs)
    | _ => none
  | _ => none

/-- A document, for enough fuel. -/
def value : ℕ → List Char → Option (Value Scalar × List Char)
  | 0, _ => none
  | n + 1, cs => match skip cs with
    | 'n' :: 'u' :: 'l' :: 'l' :: cs => some (.scalar .null, cs)
    | 't' :: 'r' :: 'u' :: 'e' :: cs => some (.scalar (.bool true), cs)
    | 'f' :: 'a' :: 'l' :: 's' :: 'e' :: cs => some (.scalar (.bool false), cs)
    | '"' :: cs => (text .plain cs).map fun (s, cs) => (.scalar (.text (String.ofList s)), cs)
    | '[' :: cs => (many (value n) ']' n cs).map fun (items, cs) => (.seq items, cs)
    | '\x7b' :: cs =>
      (many (entry (value n)) '\x7d' n cs).map fun (entries, cs) => (.map entries, cs)
    | cs => (number cs).map fun (n, cs) => (.scalar (.int n), cs)

/-- A text that is a document, with nothing but blanks around it. -/
def read (s : String) : Option (Value Scalar) :=
  match value s.length s.toList with
  | some (v, rest) => if skip rest = [] then some v else none
  | none => none

/-! ### Texts and numbers -/

theorem hexDigit?_digitChar : ∀ d < 16, hexDigit? d.digitChar = some d := by decide

/-- A written character is read back. -/
theorem text_escape (c : Char) (cs : List Char) :
    text .plain (escape c ++ cs) = grow c (text .plain cs) := by
  unfold escape
  split_ifs with hquote hslash hb ht hn hf hr hlow
  all_goals try subst_vars; rfl
  · have hhigh : c.toNat / 16 < 16 := by omega
    have hdigit : c.toNat % 16 < 16 := Nat.mod_lt _ (by decide)
    have hcode : 16 * (c.toNat / 16) + c.toNat % 16 = c.toNat := Nat.div_add_mod _ _
    have hzero : hexDigit? '0' = some 0 := rfl
    simp only [List.cons_append, List.nil_append, text, hzero, hexDigit?_digitChar _ hhigh,
      hexDigit?_digitChar _ hdigit, Nat.mul_zero, Nat.zero_add, Nat.add_zero, hcode]
    have hdecode : decode none c.toNat = some (.inl c) := by
      rw [decode, if_neg (by omega), if_neg (by omega), Char.ofNat_toNat]
    simp [hdecode]
  · simp [text, hquote, hslash, hlow]

theorem text_writeText (s : List Char) (rest : List Char) :
    text .plain (s.flatMap escape ++ '"' :: rest) = some (s, rest) := by
  induction s with
  | nil => rfl
  | cons c s ih =>
    rw [List.flatMap_cons, List.append_assoc, text_escape, ih]
    rfl

/-- The rest does not go on with a number. -/
def Stops (rest : List Char) : Prop :=
  ∀ c ∈ rest.head?, c.isDigit = false ∧ c ≠ '.' ∧ c ≠ 'e' ∧ c ≠ 'E'

theorem head?_toDigits {n : ℕ} (h : (Nat.toDigits 10 n).head? = some '0') : n = 0 := by
  induction n using Nat.strongRecOn with
  | ind n ih =>
    rw [Nat.toDigits_eq_if (by decide)] at h
    split at h
    · next hlt =>
      have hall : ∀ d < 10, [Nat.digitChar d].head? = some '0' → d = 0 := by decide
      exact hall n hlt h
    · next hge =>
      rw [List.head?_append_of_ne_nil _ Nat.toDigits_ne_nil] at h
      have := ih (n / 10) (by omega) h
      omega

theorem natural_toDigits (n : ℕ) {rest : List Char} (h : Stops rest) :
    natural (Nat.toDigits 10 n ++ rest) = some (n, rest) := by
  have hdigits : ∀ c ∈ Nat.toDigits 10 n, c.isDigit = true :=
    fun c hc => Nat.isDigit_of_mem_toDigits (by decide) (by decide) hc
  have hstop : ∀ c ∈ rest.head?, c.isDigit = false := fun c hc => (h c hc).1
  have htake : (Nat.toDigits 10 n ++ rest).takeWhile Char.isDigit = Nat.toDigits 10 n := by
    rw [List.takeWhile_append_of_pos hdigits]
    cases rest with
    | nil => simp
    | cons c rest => simp [hstop c rfl]
  have hdrop : (Nat.toDigits 10 n ++ rest).dropWhile Char.isDigit = rest := by
    rw [List.dropWhile_append_of_pos hdigits]
    cases rest with
    | nil => rfl
    | cons c rest => simp [hstop c rfl]
  rw [natural, htake, hdrop, if_neg, Nat.ofDigitChars_toDigits (by decide) (by decide)]
  rintro (hnil | ⟨hhead, hne⟩ | hdot | he | he)
  · exact Nat.toDigits_ne_nil hnil
  · obtain rfl := head?_toDigits hhead
    exact hne rfl
  · exact (h '.' hdot).2.1 rfl
  · exact (h 'e' he).2.2.1 rfl
  · exact (h 'E' he).2.2.2 rfl

/-! ### Items -/

/-- A character that ends a sequence or a mapping. -/
structure Closes (close : Char) : Prop where
  blank : isBlank close = false
  comma : close ≠ ','
  stops : Stops [close]

theorem closes_bracket : Closes ']' := ⟨rfl, by decide, by rintro c ⟨⟩; decide⟩

theorem closes_brace : Closes '\x7d' := ⟨rfl, by decide, by rintro c ⟨⟩; decide⟩

theorem skip_cons {c : Char} (h : isBlank c = false) (cs : List Char) :
    skip (c :: cs) = c :: cs := by
  rw [skip, List.dropWhile_cons, h]
  rfl

section Items

variable {α : Type} {item : List Char → Option (α × List Char)} {close : Char} {w : α → List Char}
  {as : List α}

theorem stops_joinMore (hclose : Closes close) (parts : List (List Char)) (rest : List Char) :
    Stops (joinMore close parts ++ rest) := by
  rintro c hc
  cases parts with
  | nil => exact hclose.stops c hc
  | cons part parts =>
    obtain rfl := Option.some.inj hc
    decide

theorem more_joinMore (hclose : Closes close) {n : ℕ} (hn : as.length < n)
    (hitem : ∀ a ∈ as, ∀ rest, Stops rest → item (w a ++ rest) = some (a, rest))
    (rest : List Char) :
    more item close n (joinMore close (as.map w) ++ rest) = some (as, rest) := by
  induction as generalizing n with
  | nil =>
    obtain ⟨n, rfl⟩ := Nat.exists_eq_succ_of_ne_zero (Nat.ne_of_gt hn)
    rw [more, List.map_nil, joinMore, List.cons_append, skip_cons hclose.blank]
    exact if_pos rfl
  | cons a as ih =>
    obtain ⟨n, rfl⟩ := Nat.exists_eq_succ_of_ne_zero (Nat.ne_of_gt (Nat.zero_lt_of_lt hn))
    obtain ⟨ha, has⟩ := List.forall_mem_cons.1 hitem
    have hmore := ih (Nat.lt_of_succ_lt_succ hn) has
    rw [more, List.map_cons, joinMore, List.cons_append, List.cons_append, List.append_assoc,
      skip_cons rfl]
    simp only [if_neg hclose.comma.symm, if_true, ha _ (stops_joinMore hclose _ _), hmore,
      Option.bind_eq_bind, Option.bind_some]
    rfl

theorem many_join (hclose : Closes close) {n : ℕ} (hn : as.length ≤ n)
    (hitem : ∀ a ∈ as, ∀ rest, Stops rest → item (w a ++ rest) = some (a, rest))
    (hopens : ∀ a ∈ as, ∃ c cs, w a = c :: cs ∧ isBlank c = false ∧ c ≠ close)
    (rest : List Char) : many item close n (join close (as.map w) ++ rest) = some (as, rest) := by
  cases as with
  | nil =>
    rw [many, List.map_nil, join, List.cons_append, skip_cons hclose.blank]
    exact if_pos rfl
  | cons a as =>
    obtain ⟨ha, has⟩ := List.forall_mem_cons.1 hitem
    obtain ⟨c, cs, hw, hblank, hne⟩ := hopens a List.mem_cons_self
    have hskip : ∀ r, skip (w a ++ r) = c :: (cs ++ r) := by
      intro r
      rw [hw, List.cons_append, skip_cons hblank]
    have hmore := more_joinMore hclose (w := w) hn has
    rw [many, List.map_cons, join, List.append_assoc, hskip]
    simp only [if_neg hne, ha _ (stops_joinMore hclose _ _), hmore, Option.bind_eq_bind,
      Option.bind_some]
    rfl

end Items

theorem length_le_joinMore (close : Char) (parts : List (List Char)) :
    parts.length < (joinMore close parts).length := by
  induction parts with
  | nil => simp [joinMore]
  | cons part parts ih =>
    simp only [joinMore, List.length_cons, List.length_append, List.cons_append]
    omega

theorem length_le_join (close : Char) (parts : List (List Char)) :
    parts.length ≤ (join close parts).length := by
  cases parts with
  | nil => simp [join]
  | cons part parts =>
    have := length_le_joinMore close parts
    simp only [join, List.length_cons, List.length_append]
    omega

theorem length_part_joinMore (close : Char) {part : List Char} {parts : List (List Char)}
    (h : part ∈ parts) :
    part.length < (joinMore close parts).length := by
  induction parts with
  | nil => cases h
  | cons first parts ih =>
    simp only [joinMore, List.length_cons, List.length_append, List.cons_append]
    rcases List.mem_cons.1 h with rfl | h
    · omega
    · have := ih h
      omega

theorem length_part_join (close : Char) {part : List Char} {parts : List (List Char)}
    (h : part ∈ parts) :
    part.length ≤ (join close parts).length := by
  cases parts with
  | nil => cases h
  | cons first parts =>
    simp only [join, List.length_append]
    rcases List.mem_cons.1 h with rfl | h
    · omega
    · have := length_part_joinMore close h
      omega

/-! ### Documents -/

theorem writeItems_eq (items : List (Value Scalar)) : writeItems items = items.map write := by
  induction items with
  | nil => rfl
  | cons item items ih => rw [writeItems, ih, List.map_cons]

theorem writeEntries_eq (entries : List (Value Scalar × Value Scalar)) :
    writeEntries entries = entries.map writeEntry := by
  induction entries with
  | nil => rfl
  | cons entry entries ih => rw [writeEntries, ih, List.map_cons]

/-- A character with which a document may start. -/
def Opens (c : Char) : Prop := isBlank c = false ∧ c ≠ ']' ∧ c ≠ '\x7d'

instance (c : Char) : Decidable (Opens c) := inferInstanceAs (Decidable (_ ∧ _ ∧ _))

theorem opens_of_isDigit {c : Char} (h : c.isDigit = true) : Opens c := by
  refine ⟨?_, ?_, ?_⟩
  · by_contra hblank
    simp only [Bool.not_eq_false, isBlank, Bool.or_eq_true, decide_eq_true_eq] at hblank
    rcases hblank with ((rfl | rfl) | rfl) | rfl <;> cases h
  all_goals
    rintro rfl
    cases h

theorem exists_toDigits (n : ℕ) :
    ∃ c cs, Nat.toDigits 10 n = c :: cs ∧ c.isDigit = true := by
  obtain ⟨c, cs, h⟩ := List.exists_cons_of_ne_nil (Nat.toDigits_ne_nil (n := n) (b := 10))
  exact ⟨c, cs, h, Nat.isDigit_of_mem_toDigits (by decide) (by decide) (h ▸ List.mem_cons_self)⟩

theorem exists_write (v : Value Scalar) : ∃ c cs, write v = c :: cs ∧ Opens c := by
  cases v with
  | scalar s =>
    cases s with
    | null => exact ⟨_, _, rfl, by decide⟩
    | bool b => cases b <;> exact ⟨_, _, rfl, by decide⟩
    | int n =>
      cases n with
      | ofNat n =>
        obtain ⟨c, cs, h, hdigit⟩ := exists_toDigits n
        exact ⟨c, cs, h, opens_of_isDigit hdigit⟩
      | negSucc n => exact ⟨_, _, rfl, by decide⟩
    | text s => exact ⟨_, _, rfl, by decide⟩
  | seq items => exact ⟨_, _, rfl, by decide⟩
  | map entries => exact ⟨_, _, rfl, by decide⟩

theorem value_digit {c : Char} (hdigit : c.isDigit = true) (n : ℕ) (cs : List Char) :
    value (n + 1) (c :: cs) = (natural (c :: cs)).map fun (n, cs) => (.scalar (.int n), cs) := by
  have hne : ∀ d : Char, d.isDigit = false → c ≠ d := by
    rintro d hd rfl
    rw [hdigit] at hd
    cases hd
  rw [value, skip_cons (opens_of_isDigit hdigit).1]
  split
  case h_1 _ heq | h_2 _ heq | h_3 _ heq | h_4 _ heq | h_5 _ heq | h_6 _ heq =>
    exact absurd (List.cons.inj heq).1 (hne _ rfl)
  rw [number, Option.map_map]
  · rfl
  · rintro rest heq
    exact hne '-' rfl (List.cons.inj heq).1

theorem value_writeScalar (s : Scalar) (n : ℕ) {rest : List Char} (h : Stops rest) :
    value (n + 1) (writeScalar s ++ rest) = some (.scalar s, rest) := by
  cases s with
  | null => rfl
  | bool b => cases b <;> rfl
  | int k =>
    cases k with
    | ofNat k =>
      obtain ⟨c, cs, hcs, hdigit⟩ := exists_toDigits k
      have hnatural := natural_toDigits k h
      rw [writeScalar, hcs, List.cons_append, value_digit hdigit, ← List.cons_append, ← hcs,
        hnatural]
      rfl
    | negSucc k =>
      have hnatural := natural_toDigits (k + 1) h
      have hvalue : value (n + 1) ('-' :: (Nat.toDigits 10 (k + 1) ++ rest)) =
          ((natural (Nat.toDigits 10 (k + 1) ++ rest)).bind fun (n, rest) =>
            if n = 0 then none else some (-(n : ℤ), rest)).map
              fun (n, cs) => (.scalar (.int n), cs) := rfl
      rw [writeScalar, List.cons_append, hvalue, hnatural]
      rfl
  | text s =>
    rw [value, writeScalar, writeText, List.cons_append, List.cons_append, skip_cons rfl]
    simp only [List.append_assoc, List.cons_append, List.nil_append, text_writeText,
      Option.map_some, String.ofList_toList]

theorem entry_writeEntry {n : ℕ} {name : String} {v : Value Scalar} {rest : List Char}
    (h : value n (write v ++ rest) = some (v, rest)) :
    entry (value n) (writeEntry (key name, v) ++ rest) = some ((key name, v), rest) := by
  rw [entry, writeEntry, key, write, writeScalar, writeText]
  simp only [List.cons_append, List.append_assoc, List.nil_append, skip_cons (c := '"') rfl]
  simp only [text_writeText, Option.bind_eq_bind, Option.bind_some, skip_cons (c := ':') rfl, h,
    String.ofList_toList]
  rfl

/-- **What is written is read back**, whatever comes after it. -/
theorem value_write {v : Value Scalar} (hv : Named v) {n : ℕ} (hn : (write v).length ≤ n)
    {rest : List Char} (hrest : Stops rest) : value n (write v ++ rest) = some (v, rest) := by
  induction v using Value.induct generalizing n rest with
  | scalar s =>
    obtain ⟨c, cs, hw, -⟩ := exists_write (.scalar s)
    rw [hw] at hn
    obtain ⟨n, rfl⟩ := Nat.exists_eq_succ_of_ne_zero (Nat.ne_of_gt (Nat.zero_lt_of_lt hn))
    exact value_writeScalar s n hrest
  | seq items ih =>
    cases hv with
    | seq hitems =>
      rw [write, writeItems_eq] at hn ⊢
      obtain ⟨n, rfl⟩ := Nat.exists_eq_succ_of_ne_zero (Nat.ne_of_gt (Nat.zero_lt_of_lt hn))
      have hlength := Nat.le_of_succ_le_succ hn
      have hmany :
          many (value n) ']' n (join ']' (items.map write) ++ rest) = some (items, rest) := by
        refine many_join closes_bracket ?_ (fun item hitem r hr => ?_) (fun item _ => ?_) rest
        · exact (List.length_map write ▸ length_le_join ']' (items.map write)).trans hlength
        · exact ih item hitem (hitems item hitem)
            ((length_part_join ']' (List.mem_map_of_mem hitem)).trans hlength) hr
        · obtain ⟨c, cs, hw, hopens⟩ := exists_write item
          exact ⟨c, cs, hw, hopens.1, hopens.2.1⟩
      rw [value, List.cons_append, skip_cons rfl]
      simp only [hmany, Option.map_some]
  | map entries ih =>
    cases hv with
    | map hkeys hvalues =>
      rw [write, writeEntries_eq] at hn ⊢
      obtain ⟨n, rfl⟩ := Nat.exists_eq_succ_of_ne_zero (Nat.ne_of_gt (Nat.zero_lt_of_lt hn))
      have hlength := Nat.le_of_succ_le_succ hn
      have hmany : many (entry (value n)) '\x7d' n
          (join '\x7d' (entries.map writeEntry) ++ rest) = some (entries, rest) := by
        refine many_join closes_brace ?_ (fun e he r hr => ?_) (fun e he => ?_) rest
        · exact (List.length_map writeEntry ▸
            length_le_join '\x7d' (entries.map writeEntry)).trans hlength
        · have hpart := (length_part_join '\x7d' (List.mem_map_of_mem he)).trans hlength
          obtain ⟨name, hname⟩ := hkeys e he
          obtain ⟨k, v⟩ := e
          obtain rfl : k = key name := hname
          rw [writeEntry, List.length_append, List.length_cons] at hpart
          have hfuel : (write v).length ≤ n := by omega
          exact entry_writeEntry ((ih _ he).2 (hvalues _ he) hfuel hr)
        · obtain ⟨name, hname⟩ := hkeys e he
          obtain ⟨k, v⟩ := e
          obtain rfl : k = key name := hname
          exact ⟨'"', _, rfl, rfl, by decide⟩
      rw [value, List.cons_append, skip_cons rfl]
      simp only [hmany, Option.map_some]

theorem newline_notMem_escape (c : Char) : '\n' ∉ escape c := by
  have hhex : ∀ d < 16, '\n' ≠ d.digitChar := by decide
  unfold escape
  split_ifs with hquote hslash hb ht hn hf hr hlow
  all_goals try decide
  · have hhigh := hhex (c.toNat / 16) (by omega)
    have hdigit := hhex (c.toNat % 16) (Nat.mod_lt _ (by decide))
    simp [hhigh, hdigit]
  · simpa using fun h => hn h.symm

/-- A document is one line. -/
theorem newline_notMem_write (v : Value Scalar) : '\n' ∉ write v := by
  have hdigits : ∀ n, '\n' ∉ Nat.toDigits 10 n := fun n h => by
    have := Nat.isDigit_of_mem_toDigits (by decide) (by decide) h
    cases this
  have hmore : ∀ close parts, close ≠ '\n' → (∀ part ∈ parts, '\n' ∉ part) →
      '\n' ∉ joinMore close parts := by
    intro close parts hclose hparts
    induction parts with
    | nil => simpa [joinMore] using hclose.symm
    | cons part parts ih =>
      obtain ⟨hpart, hrest⟩ := List.forall_mem_cons.1 hparts
      simpa [joinMore, hpart] using ih hrest
  have hjoin : ∀ close parts, close ≠ '\n' → (∀ part ∈ parts, '\n' ∉ part) →
      '\n' ∉ join close parts := by
    intro close parts hclose hparts
    cases parts with
    | nil => simpa [join] using hclose.symm
    | cons part parts =>
      obtain ⟨hpart, hrest⟩ := List.forall_mem_cons.1 hparts
      simpa [join, hpart] using hmore close parts hclose hrest
  induction v using Value.induct with
  | scalar s =>
    cases s with
    | null => simp [write, writeScalar]
    | bool b => cases b <;> simp [write, writeScalar]
    | int n => cases n <;> simp [write, writeScalar, hdigits]
    | text s =>
      simp [write, writeScalar, writeText, newline_notMem_escape]
  | seq items ih =>
    rw [write, writeItems_eq]
    simpa using hjoin ']' (items.map write) (by decide) (by simpa using ih)
  | map entries ih =>
    have hparts : ∀ part ∈ entries.map writeEntry, '\n' ∉ part := by
      rintro part hpart
      obtain ⟨⟨k, v⟩, he, rfl⟩ := List.mem_map.1 hpart
      obtain ⟨hk, hv⟩ := ih _ he
      simp [writeEntry, hk, hv]
    rw [write, writeEntries_eq]
    simpa using hjoin '\x7d' (entries.map writeEntry) (by decide) hparts

theorem exists_join (close : Char) (parts : List (List Char)) :
    ∃ cs, join close parts = cs ++ [close] := by
  have hmore : ∃ cs, ∀ first, first ++ joinMore close parts.tail = first ++ cs ++ [close] := by
    induction parts.tail with
    | nil => exact ⟨[], fun first => by simp [joinMore]⟩
    | cons part parts ih =>
      obtain ⟨cs, hcs⟩ := ih
      exact ⟨',' :: part ++ cs, fun first => by
        have := hcs (',' :: part)
        rw [joinMore, this, List.append_assoc]
        simp⟩
  cases parts with
  | nil => exact ⟨[], rfl⟩
  | cons part parts =>
    obtain ⟨cs, hcs⟩ := hmore
    exact ⟨part ++ cs, hcs part⟩

/-! ### Torn documents -/

section Append

variable {q : List Char}

theorem skip_append {cs rest : List Char} {c : Char} (h : skip cs = c :: rest) (q : List Char) :
    skip (cs ++ q) = c :: (rest ++ q) := by
  unfold skip at h ⊢
  rw [List.dropWhile_append, h]
  rfl

theorem text_append {st : Scan} {cs s rest : List Char} (h : text st cs = some (s, rest))
    (q : List Char) : text st (cs ++ q) = some (s, rest ++ q) := by
  have hgrow : ∀ {c : Char} {cs s : List Char}, grow c (text .plain cs) = some (s, rest) →
      (∀ {s}, text .plain cs = some (s, rest) → text .plain (cs ++ q) = some (s, rest ++ q)) →
        grow c (text .plain (cs ++ q)) = some (s, rest ++ q) := by
    intro c cs s h ih
    obtain ⟨⟨s', rest'⟩, htext, heq⟩ := Option.map_eq_some_iff.1 h
    cases heq
    rw [ih htext]
    rfl
  induction cs generalizing st s with
  | nil => cases st <;> cases h
  | cons c cs ih =>
    cases st with
    | plain =>
      rw [List.cons_append]
      unfold text at h ⊢
      split_ifs at h ⊢
      · cases h
        rfl
      · exact ih h
      · exact hgrow h fun h => ih h
    | escape =>
      rw [List.cons_append]
      unfold text at h ⊢
      split_ifs at h ⊢
      · exact ih h
      · cases hd : unescape? c with
        | none => rw [hd] at h; cases h
        | some d =>
          rw [hd] at h
          exact hgrow h fun h => ih h
    | low high =>
      rw [List.cons_append]
      unfold text at h ⊢
      split_ifs at h ⊢
      exact ih h
    | lowEscape high =>
      rw [List.cons_append]
      unfold text at h ⊢
      split_ifs at h ⊢
      exact ih h
    | hex high left code =>
      rw [List.cons_append]
      unfold text at h ⊢
      cases hdigit : hexDigit? c with
      | none => rw [hdigit] at h; cases h
      | some digit =>
        rw [hdigit] at h
        cases left with
        | succ left => exact ih h
        | zero =>
          cases hcode : decode high (16 * code + digit) with
          | none => simp only [hcode] at h; cases h
          | some result =>
            simp only [hcode] at h ⊢
            cases result with
            | inl d => exact hgrow h fun h => ih h
            | inr high => exact ih h

theorem natural_append {cs rest : List Char} {n : ℕ} (h : natural cs = some (n, rest))
    (hrest : rest ≠ []) (q : List Char) : natural (cs ++ q) = some (n, rest ++ q) := by
  unfold natural at h
  dsimp only at h
  split_ifs at h with hbad
  obtain ⟨rfl, rfl⟩ := Prod.mk.inj (Option.some.inj h)
  have hdrop : (cs ++ q).dropWhile Char.isDigit = cs.dropWhile Char.isDigit ++ q := by
    rw [List.dropWhile_append, if_neg (by simpa using hrest)]
  have htake : (cs ++ q).takeWhile Char.isDigit = cs.takeWhile Char.isDigit := by
    have hall := List.takeWhile_append_dropWhile (p := Char.isDigit) (l := cs ++ q)
    rw [hdrop, ← List.append_assoc] at hall
    have hcs := List.append_cancel_right hall
    exact List.append_cancel_right (hcs.trans (List.takeWhile_append_dropWhile ..).symm)
  unfold natural
  dsimp only
  rw [htake, hdrop, List.head?_append_of_ne_nil _ hrest, if_neg hbad]

theorem number_cons {c : Char} (hc : c ≠ '-') (cs : List Char) :
    number (c :: cs) = (natural (c :: cs)).map fun (n, rest) => (n, rest) := by
  rw [number]
  rintro cs heq
  exact hc (List.cons.inj heq).1

theorem number_append {cs rest : List Char} {n : ℤ} (h : number cs = some (n, rest))
    (hrest : rest ≠ []) (q : List Char) : number (cs ++ q) = some (n, rest ++ q) := by
  cases cs with
  | nil => cases h
  | cons c cs =>
    by_cases hc : c = '-'
    · subst hc
      obtain ⟨⟨k, rest'⟩, hnatural, heq⟩ := Option.bind_eq_some_iff.1 h
      rw [List.cons_append, number, Option.bind_eq_some_iff]
      dsimp only at heq
      split_ifs at heq with hk
      cases heq
      exact ⟨(k, rest ++ q), natural_append hnatural hrest q, if_neg hk⟩
    · rw [number_cons hc] at h
      obtain ⟨⟨k, rest'⟩, hnatural, heq⟩ := Option.map_eq_some_iff.1 h
      cases heq
      have := natural_append hnatural hrest q
      rw [List.cons_append, number_cons hc, ← List.cons_append, this]
      rfl

variable {α : Type} {item item' : List Char → Option (α × List Char)} {close : Char}

theorem more_append
    (hitem : ∀ {cs a rest}, item cs = some (a, rest) → rest ≠ [] →
      item' (cs ++ q) = some (a, rest ++ q)) {n m : ℕ} (hnm : n ≤ m) {cs rest : List Char}
    {as : List α} (h : more item close n cs = some (as, rest)) :
    more item' close m (cs ++ q) = some (as, rest ++ q) := by
  induction n generalizing m cs as with
  | zero => cases h
  | succ n ih =>
    obtain ⟨m, rfl⟩ := Nat.exists_eq_succ_of_ne_zero (Nat.ne_of_gt (Nat.zero_lt_of_lt hnm))
    rw [more] at h ⊢
    cases hskip : skip cs with
    | nil => rw [hskip] at h; cases h
    | cons c tail =>
      rw [hskip] at h
      rw [skip_append hskip]
      dsimp only at h ⊢
      split_ifs at h ⊢
      · cases h
        rfl
      · obtain ⟨⟨a, after⟩, ha, h⟩ := Option.bind_eq_some_iff.1 h
        obtain ⟨⟨others, rest⟩, has, h⟩ := Option.bind_eq_some_iff.1 h
        cases h
        have hne : after ≠ [] := by
          rintro rfl
          cases n <;> cases has
        rw [hitem ha hne]
        simp only [Option.bind_eq_bind, Option.bind_some, ih (Nat.le_of_succ_le_succ hnm) has]
        rfl

theorem many_append
    (hitem : ∀ {cs a rest}, item cs = some (a, rest) → rest ≠ [] →
      item' (cs ++ q) = some (a, rest ++ q)) {n m : ℕ} (hnm : n ≤ m) {cs rest : List Char}
    {as : List α} (h : many item close n cs = some (as, rest)) :
    many item' close m (cs ++ q) = some (as, rest ++ q) := by
  rw [many] at h ⊢
  cases hskip : skip cs with
  | nil => rw [hskip] at h; cases h
  | cons c tail =>
    rw [hskip] at h
    rw [skip_append hskip]
    dsimp only at h ⊢
    split_ifs at h ⊢
    · cases h
      rfl
    · obtain ⟨⟨a, after⟩, ha, h⟩ := Option.bind_eq_some_iff.1 h
      obtain ⟨⟨others, rest⟩, has, h⟩ := Option.bind_eq_some_iff.1 h
      cases h
      have hne : after ≠ [] := by
        rintro rfl
        cases n <;> cases has
      rw [hitem ha hne]
      simp only [Option.bind_eq_bind, Option.bind_some, more_append hitem hnm has]
      rfl

theorem entry_append {read read' : List Char → Option (Value Scalar × List Char)}
    (hvalue : ∀ {cs v rest}, read cs = some (v, rest) → rest ≠ [] →
      read' (cs ++ q) = some (v, rest ++ q)) {cs rest : List Char}
    {e : Value Scalar × Value Scalar} (h : entry read cs = some (e, rest)) (hrest : rest ≠ []) :
    entry read' (cs ++ q) = some (e, rest ++ q) := by
  unfold entry at h
  split at h
  · next tail hskip =>
    obtain ⟨⟨name, after⟩, hname, h⟩ := Option.bind_eq_some_iff.1 h
    dsimp only at h
    split at h
    · next before hcolon =>
      obtain ⟨⟨v, rest⟩, hv, h⟩ := Option.bind_eq_some_iff.1 h
      cases h
      rw [entry, skip_append hskip]
      simp only [text_append hname, Option.bind_eq_bind, Option.bind_some, skip_append hcolon,
        hvalue hv hrest]
      rfl
    · cases h
  · cases h

/-- The value is a number. -/
def IsNumber : Value Scalar → Prop
  | .scalar (.int _) => True
  | _ => False

/-- A number starts with a digit or a sign. -/
theorem exists_number {cs rest : List Char} {n : ℤ} (h : number cs = some (n, rest)) :
    ∃ c r, cs = c :: r ∧ (c.isDigit = true ∨ c = '-') := by
  cases cs with
  | nil => cases h
  | cons c r =>
    refine ⟨c, r, rfl, ?_⟩
    by_contra hc
    obtain ⟨hdigit, hsign⟩ := not_or.1 hc
    have hnone : natural (c :: r) = none := by
      rw [natural]
      exact if_pos (.inl (List.takeWhile_cons_of_neg (by simpa using hdigit)))
    rw [number_cons hsign, hnone] at h
    cases h

/-- What was read is read again where more characters come, unless a number goes on. -/
theorem value_append {n m : ℕ} (hnm : n ≤ m) {cs rest : List Char} {v : Value Scalar}
    (h : value n cs = some (v, rest)) (hends : rest ≠ [] ∨ ¬ IsNumber v) :
    value m (cs ++ q) = some (v, rest ++ q) := by
  induction n generalizing m cs v rest with
  | zero => cases h
  | succ n ih =>
    obtain ⟨m, rfl⟩ := Nat.exists_eq_succ_of_ne_zero (Nat.ne_of_gt (Nat.zero_lt_of_lt hnm))
    have hle := Nat.le_of_succ_le_succ hnm
    have hitem : ∀ {cs v rest}, value n cs = some (v, rest) → rest ≠ [] →
        value m (cs ++ q) = some (v, rest ++ q) := fun h hne => ih hle h (.inl hne)
    unfold value at h ⊢
    split at h
    case h_1 tail hskip | h_2 tail hskip | h_3 tail hskip =>
      cases h
      rw [skip_append hskip]
      rfl
    case h_4 tail hskip =>
      obtain ⟨⟨s, rest⟩, htext, heq⟩ := Option.map_eq_some_iff.1 h
      cases heq
      rw [skip_append hskip]
      simp only [text_append htext, Option.map_some]
    case h_5 tail hskip =>
      obtain ⟨⟨items, rest⟩, hmany, heq⟩ := Option.map_eq_some_iff.1 h
      cases heq
      rw [skip_append hskip]
      simp only [many_append hitem hle hmany, Option.map_some]
    case h_6 tail hskip =>
      obtain ⟨⟨entries, rest⟩, hmany, heq⟩ := Option.map_eq_some_iff.1 h
      cases heq
      rw [skip_append hskip]
      simp only [many_append (entry_append hitem) hle hmany, Option.map_some]
    case h_7 =>
      obtain ⟨⟨k, rest⟩, hnumber, heq⟩ := Option.map_eq_some_iff.1 h
      cases heq
      have hrest := hends.resolve_right fun hnot => hnot trivial
      obtain ⟨c, r, hskip, hc⟩ := exists_number hnumber
      have hne : ∀ d : Char, d.isDigit = false → d ≠ '-' → c ≠ d := by
        rintro d hdigit hsign rfl
        rcases hc with hc | hc
        · rw [hdigit] at hc
          cases hc
        · exact hsign hc
      rw [hskip] at hnumber
      have hnumber := number_append hnumber hrest q
      rw [skip_append hskip]
      split
      case h_1 _ heq | h_2 _ heq | h_3 _ heq | h_4 _ heq | h_5 _ heq | h_6 _ heq =>
        exact absurd (List.cons.inj heq).1 (hne _ rfl (by decide))
      rw [← List.cons_append, hnumber]
      rfl

end Append

theorem value_map {n : ℕ} {cs rest : List Char} {v : Value Scalar}
    (h : value n ('\x7b' :: cs) = some (v, rest)) : ∃ entries, v = .map entries := by
  cases n with
  | zero => cases h
  | succ n =>
    obtain ⟨⟨entries, rest⟩, -, heq⟩ := Option.map_eq_some_iff.1 h
    cases heq
    exact ⟨entries, rfl⟩

/-- What is written is read back. -/
theorem read_write {v : Value Scalar} (hv : Named v) : read (String.ofList (write v)) = some v := by
  have hstops : Stops [] := fun c hc => by cases hc
  have hvalue := value_write hv le_rfl hstops
  rw [List.append_nil] at hvalue
  simp [read, hvalue, skip]

/-- **A torn mapping is not read**: no proper prefix of what is written is a document. -/
theorem read_torn {entries : List (Value Scalar × Value Scalar)} (hv : Named (.map entries))
    {p q : List Char} (h : p ++ q = write (.map entries)) (hq : q ≠ []) :
    read (String.ofList p) = none := by
  have hstops : Stops [] := fun c hc => by cases hc
  have hvalue := value_write hv le_rfl hstops
  rw [List.append_nil, ← h] at hvalue
  rw [read, String.length_ofList, String.toList_ofList]
  split
  · next v rest hp =>
    cases p with
    | nil => cases hp
    | cons c p =>
      rw [write, List.cons_append] at h
      obtain rfl := (List.cons.inj h).1
      obtain ⟨found, rfl⟩ := value_map hp
      have hlength : ('\x7b' :: p).length ≤ ('\x7b' :: p ++ q).length := by simp
      have hagain := value_append (q := q) hlength hp (.inr id)
      rw [hagain] at hvalue
      obtain ⟨-, hrest⟩ := Prod.mk.inj (Option.some.inj hvalue)
      exact absurd (List.append_eq_nil_iff.1 hrest).2 hq
  · rfl

end JsonText

end Serde

end Roster
