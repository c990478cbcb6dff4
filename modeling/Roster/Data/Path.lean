import Mathlib.Data.List.DropRight
import Mathlib.Data.Nat.Notation

/-!
# Paths and what they lead to

A path is a text of names separated by slashes, a directory the list of names that leads to it from
the root.  The operating system follows a path name by name: an empty name and `.` stay, `..` goes
up, and a path that starts with a slash starts from the root (`Path.resolve`).  There are no
symbolic links here.

* `Path.resolve_join` : following `join base path` is following `path` from where `base` leads.
* `Path.resolve_parts` : a path leads to the name after its last slash, from the directory the text
  before leads to.
* `Path.mem_visited` : whoever comes from outside of a directory into it passes it.
* `Path.withExtension_append` : what a path becomes whose last name gets another extension.
-/

namespace Roster

namespace Path

/-- A place in the tree: the names on the way to it from the root. -/
abbrev Dir := List (List Char)

/-- Follow one name. -/
def enter (dir : Dir) (name : List Char) : Dir :=
  if name = [] ∨ name = ['.'] then dir
  else if name = ['.', '.'] then dir.dropLast
  else dir ++ [name]

/-- The names of a path. -/
def names (path : List Char) : List (List Char) := path.splitOn '/'

/-- Follow the names of a path one after the other. -/
def walk (dir : Dir) (path : List Char) : Dir := (names path).foldl enter dir

/-- Where a path leads in a process whose working directory is `dir`. -/
def resolve (dir : Dir) (path : List Char) : Dir :=
  if path.head? = some '/' then walk [] path else walk dir path

/-- `path` under `base`; an absolute path stays what it is. -/
def join (base path : List Char) : List Char :=
  if path.head? = some '/' then path
  else if base = [] ∨ base.getLast? = some '/' then base ++ path
  else base ++ '/' :: path

/-- The text up to the last slash. -/
def dirPart (path : List Char) : List Char := path.rdropWhile (· ≠ '/')

/-- The text after the last slash. -/
def namePart (path : List Char) : List Char := path.rtakeWhile (· ≠ '/')

/-- The place `file` is in the directory `dir` or below it. -/
def Inside (dir file : Dir) : Prop := dir <+: file ∧ dir ≠ file

/-- A name that `enter` follows downwards. -/
structure Plain (name : List Char) : Prop where
  ne_nil : name ≠ []
  ne_dot : name ≠ ['.']
  ne_dots : name ≠ ['.', '.']
  noSlash : '/' ∉ name

variable {dir : Dir} {base path name : List Char}

/-! ### Following a path -/

@[simp] theorem walk_nil : walk dir [] = dir := by
  simp [walk, names, enter]

theorem walk_append (path rest : List Char) :
    walk dir (path ++ '/' :: rest) = walk (walk dir path) rest := by
  rw [walk, names, List.splitOn_append_cons_self, List.foldl_append]
  rfl

@[simp] theorem walk_append_slash (path : List Char) :
    walk dir (path ++ ['/']) = walk dir path := by
  rw [walk_append, walk_nil]

@[simp] theorem walk_slash (path : List Char) : walk dir ('/' :: path) = walk dir path := by
  rw [← List.nil_append ('/' :: path), walk_append, walk_nil]

theorem walk_name (h : '/' ∉ name) : walk dir name = enter dir name := by
  rw [walk, names, List.splitOn_eq_singleton h]
  rfl

theorem Plain.enter (h : Plain name) : enter dir name = dir ++ [name] := by
  simp [Path.enter, h.ne_nil, h.ne_dot, h.ne_dots]

@[simp] theorem resolve_nil : resolve dir [] = dir := by
  simp [resolve]

theorem head?_ne_slash (h : '/' ∉ name) : name.head? ≠ some '/' := by
  intro hhead
  exact h (List.mem_of_mem_head? hhead)

theorem resolve_name (h : '/' ∉ name) : resolve dir name = enter dir name := by
  rw [resolve, if_neg (head?_ne_slash h), walk_name h]

theorem Plain.resolve (h : Plain name) : resolve dir name = dir ++ [name] := by
  rw [resolve_name h.noSlash, h.enter]

/-- A relative path after a text that is empty or ends in a slash. -/
theorem resolve_append (hbase : base = [] ∨ base.getLast? = some '/')
    (hpath : path.head? ≠ some '/') :
    resolve dir (base ++ path) = resolve (resolve dir base) path := by
  rcases hbase with rfl | hlast
  · rw [List.nil_append, resolve_nil]
  · obtain ⟨init, rfl⟩ := List.getLast?_eq_some_iff.1 hlast
    have hhead : (init ++ ['/'] ++ path).head? = (init ++ ['/']).head? := by
      cases init <;> rfl
    have hwalk : ∀ from', walk from' (init ++ ['/'] ++ path) = walk (walk from' init) path := by
      intro from'
      rw [List.append_assoc]
      exact walk_append init path
    unfold resolve
    rw [if_neg hpath, hhead]
    split <;> rw [hwalk, walk_append_slash]

/-- The text that stands before the path in a join: `base`, ending in a slash unless it is empty. -/
def asDir (base : List Char) : List Char :=
  if base = [] ∨ base.getLast? = some '/' then base else base ++ ['/']

theorem asDir_ends (base : List Char) : asDir base = [] ∨ (asDir base).getLast? = some '/' := by
  unfold asDir
  split_ifs with h
  · exact h
  · exact .inr List.getLast?_concat

theorem join_eq (h : path.head? ≠ some '/') : join base path = asDir base ++ path := by
  unfold join asDir
  rw [if_neg h]
  split_ifs <;> simp

/-- A text without a slash only lengthens a joined path. -/
theorem join_append (base path : List Char) {suffix : List Char} (h : '/' ∉ suffix) :
    join base (path ++ suffix) = join base path ++ suffix := by
  have hhead : (path ++ suffix).head? = some '/' ↔ path.head? = some '/' := by
    cases path with
    | nil => simp [head?_ne_slash h]
    | cons c rest => rfl
  by_cases habs : path.head? = some '/'
  · rw [join, join, if_pos habs, if_pos (hhead.2 habs)]
  · rw [join_eq habs, join_eq (mt hhead.1 habs), List.append_assoc]

theorem resolve_asDir (base : List Char) : resolve dir (asDir base) = resolve dir base := by
  unfold asDir
  split_ifs with h
  · rfl
  · have hhead : (base ++ ['/']).head? = base.head? := by
      cases base with
      | nil => exact absurd (.inl rfl) h
      | cons c rest => rfl
    unfold resolve
    rw [hhead, walk_append_slash, walk_append_slash]

/-- **Joining is following one path after the other.** -/
theorem resolve_join (dir : Dir) (base path : List Char) :
    resolve dir (join base path) = resolve (resolve dir base) path := by
  by_cases habs : path.head? = some '/'
  · simp [join, resolve, habs]
  · rw [join_eq habs, resolve_append (asDir_ends base) habs, resolve_asDir]

/-! ### The last name -/

theorem dirPart_append_namePart (path : List Char) : dirPart path ++ namePart path = path :=
  List.rdropWhile_append_rtakeWhile ..

theorem slash_not_mem_namePart (path : List Char) : '/' ∉ namePart path := by
  intro hmem
  simpa using List.mem_rtakeWhile_imp hmem

theorem dirPart_ends (path : List Char) :
    dirPart path = [] ∨ (dirPart path).getLast? = some '/' := by
  by_cases h : dirPart path = []
  · exact .inl h
  · have hlast := List.rdropWhile_last_not (p := fun c => decide (c ≠ '/')) path h
    rw [decide_eq_true_iff, not_not] at hlast
    exact .inr ((List.getLast?_eq_some_getLast h).trans (congrArg some hlast))

/-- There is one way to split a path at its last slash. -/
theorem parts_of_split (hbase : base = [] ∨ base.getLast? = some '/') (hname : '/' ∉ name) :
    dirPart (base ++ name) = base ∧ namePart (base ++ name) = name := by
  have hall : ∀ c ∈ name.reverse, decide (c ≠ '/') = true := by
    intro c hc
    rw [decide_eq_true_iff]
    rintro rfl
    exact hname (List.mem_reverse.1 hc)
  have hbase' : base.reverse = [] ∨ base.reverse.head? = some '/' := by
    simpa [List.head?_reverse] using hbase
  have hdrop : base.reverse.dropWhile (fun c => decide (c ≠ '/')) = base.reverse := by
    cases hrev : base.reverse with
    | nil => rfl
    | cons c rest => simp_all
  have htake : base.reverse.takeWhile (fun c => decide (c ≠ '/')) = [] := by
    cases hrev : base.reverse with
    | nil => rfl
    | cons c rest => simp_all
  unfold dirPart namePart List.rdropWhile List.rtakeWhile
  rw [List.reverse_append, List.dropWhile_append_of_pos hall, List.takeWhile_append_of_pos hall,
    hdrop, htake]
  simp

/-- A text without a slash only lengthens the last name. -/
theorem parts_append (path : List Char) {suffix : List Char} (h : '/' ∉ suffix) :
    dirPart (path ++ suffix) = dirPart path ∧
      namePart (path ++ suffix) = namePart path ++ suffix := by
  have hname : '/' ∉ namePart path ++ suffix := by
    simp [slash_not_mem_namePart, h]
  have hparts := parts_of_split (dirPart_ends path) hname
  rwa [← List.append_assoc, dirPart_append_namePart] at hparts

/-- What stands before the last name of a joined path only lengthens the directory. -/
theorem parts_prepend (hbase : base = [] ∨ base.getLast? = some '/') (path : List Char) :
    dirPart (base ++ path) = base ++ dirPart path ∧ namePart (base ++ path) = namePart path := by
  have hends : base ++ dirPart path = [] ∨ (base ++ dirPart path).getLast? = some '/' := by
    rcases dirPart_ends path with hnil | hlast
    · rwa [hnil, List.append_nil]
    · exact .inr (by rw [List.getLast?_append, hlast]; rfl)
  have hparts := parts_of_split hends (slash_not_mem_namePart path)
  rwa [List.append_assoc, dirPart_append_namePart] at hparts

theorem namePart_join (base path : List Char) : namePart (join base path) = namePart path := by
  by_cases habs : path.head? = some '/'
  · rw [join, if_pos habs]
  · rw [join_eq habs]
    exact (parts_prepend (asDir_ends base) path).2

theorem dirPart_join (base path : List Char) :
    dirPart (join base path) = join base (dirPart path) := by
  have hsplit := dirPart_append_namePart path
  by_cases habs : path.head? = some '/'
  · have hdir : (dirPart path).head? = some '/' := by
      cases hpart : dirPart path with
      | nil =>
        rw [hpart, List.nil_append] at hsplit
        rw [← hsplit] at habs
        exact absurd (List.mem_of_mem_head? habs) (slash_not_mem_namePart path)
      | cons c rest =>
        rw [hpart] at hsplit
        rwa [← hsplit] at habs
    rw [join, if_pos habs, join, if_pos hdir]
  · have hdir : (dirPart path).head? ≠ some '/' := by
      cases hpart : dirPart path with
      | nil => simp
      | cons c rest =>
        rw [hpart] at hsplit
        rwa [← hsplit] at habs
    rw [join_eq habs, join_eq hdir]
    exact (parts_prepend (asDir_ends base) path).1

/-- A path leads to its last name, from the directory that the text before leads to. -/
theorem resolve_parts (hbase : base = [] ∨ base.getLast? = some '/') (hname : '/' ∉ name) :
    resolve dir (base ++ name) = enter (resolve dir base) name := by
  rw [resolve_append hbase (head?_ne_slash hname), resolve_name hname]

/-- A file is inside a directory when the directory it is in is that one or below it. -/
theorem inside_concat {dir parent : Dir} : Inside dir (parent ++ [name]) ↔ dir <+: parent := by
  constructor
  · rintro ⟨hleads, hne⟩
    exact (List.prefix_concat_iff.1 hleads).resolve_left hne
  · intro hleads
    refine ⟨hleads.trans (List.prefix_append parent [name]), ?_⟩
    rintro rfl
    have hlength := hleads.length_le
    rw [List.length_append, List.length_singleton] at hlength
    omega

/-! ### The way of a path -/

/-- Where a path starts. -/
def start (dir : Dir) (path : List Char) : Dir := if path.head? = some '/' then [] else dir

theorem start_prefix (dir : Dir) (path : List Char) : start dir path <+: dir := by
  unfold start
  split_ifs
  · exact List.nil_prefix
  · exact List.prefix_refl dir

/-- The places that names lead to one after the other. -/
def visited : Dir → List (List Char) → List Dir
  | _, [] => []
  | dir, name :: names => enter dir name :: visited (enter dir name) names

/-- The directories that a path passes through on its way to its last name. -/
def way (dir : Dir) (path : List Char) : List Dir := visited (start dir path) (names path).dropLast

theorem visited_append (dir : Dir) (first second : List (List Char)) :
    visited dir (first ++ second) = visited dir first ++ visited (first.foldl enter dir) second := by
  induction first generalizing dir with
  | nil => rfl
  | cons name first ih => simp only [List.cons_append, visited, ih, List.foldl_cons]

/-- Whoever comes from outside of a directory to a place in it passes through it. -/
theorem mem_visited {entered from' : Dir} {through : List (List Char)}
    (hfrom : ¬ entered <+: from') (hto : entered <+: through.foldl enter from') :
    entered ∈ visited from' through := by
  induction through generalizing from' with
  | nil => exact absurd hto hfrom
  | cons name through ih =>
    by_cases hnext : entered <+: enter from' name
    · -- the only step into a directory is the one that enters it by its name
      have hself : entered = enter from' name := by
        unfold enter at hnext ⊢
        split_ifs at hnext ⊢ with hstay hup
        · exact absurd hnext hfrom
        · exact absurd (hnext.trans (List.dropLast_prefix _)) hfrom
        · exact (List.prefix_concat_iff.1 hnext).resolve_right hfrom
      exact hself ▸ List.mem_cons_self
    · exact List.mem_cons_of_mem _ (ih hnext hto)

theorem names_append (hbase : base = [] ∨ base.getLast? = some '/') (hname : '/' ∉ name) :
    names (base ++ name) = (names base).dropLast ++ [name] := by
  have hsingle : names name = [name] := List.splitOn_eq_singleton hname
  rcases hbase with rfl | hlast
  · simpa [names] using hsingle
  · obtain ⟨init, rfl⟩ := List.getLast?_eq_some_iff.1 hlast
    have hends : names (init ++ ['/']) = names init ++ [[]] := by
      rw [names, List.splitOn_append_cons_self]
      rfl
    rw [hends, List.dropLast_concat, ← hsingle, List.append_assoc, names, List.singleton_append,
      List.splitOn_append_cons_self]
    rfl

theorem start_append (hname : '/' ∉ name) : start dir (base ++ name) = start dir base := by
  cases base with
  | cons c rest => rfl
  | nil =>
    simp [start, head?_ne_slash hname]

/-- The way of a path is that of the text up to its last slash. -/
theorem way_eq (dir : Dir) (path : List Char) :
    way dir path = visited (start dir (dirPart path)) (names (dirPart path)).dropLast := by
  have hname := slash_not_mem_namePart path
  conv_lhs => rw [way, ← dirPart_append_namePart path]
  rw [start_append hname, names_append (dirPart_ends path) hname, List.dropLast_concat]

theorem resolve_eq_foldl (dir : Dir) (path : List Char) :
    resolve dir path = (names path).foldl enter (start dir path) := by
  unfold resolve start walk
  split <;> rfl

/-- The way of a path ends in the directory that the text up to its last slash leads to. -/
theorem foldl_names_dropLast (hbase : base = [] ∨ base.getLast? = some '/') :
    (names base).dropLast.foldl enter (start dir base) = resolve dir base := by
  have hnames : names base = (names base).dropLast ++ [[]] := by
    simpa using names_append hbase (List.not_mem_nil : '/' ∉ [])
  rw [resolve_eq_foldl]
  conv_rhs => rw [hnames, List.foldl_append]
  simp [enter]

/-- The directory a path leads to is on its way, when it is entered from outside. -/
theorem mem_way {entered : Dir} (hfrom : ¬ entered <+: start dir (dirPart path))
    (hto : entered <+: resolve dir (dirPart path)) : entered ∈ way dir path := by
  rw [way_eq]
  refine mem_visited hfrom ?_
  rwa [foldl_names_dropLast (dirPart_ends path)]

/-- What a path passes after it was joined to another, it passes from where that one leads. -/
theorem way_subset_join (base path : List Char) :
    way (resolve dir base) path ⊆ way dir (join base path) := by
  by_cases habs : path.head? = some '/'
  · rw [join, if_pos habs, way, way, start, start, if_pos habs, if_pos habs]
    exact List.Subset.refl _
  · have hnames : names (asDir base ++ path) = (names (asDir base)).dropLast ++ names path := by
      rcases asDir_ends base with hnil | hlast
      · simp [hnil, names]
      · obtain ⟨init, hinit⟩ := List.getLast?_eq_some_iff.1 hlast
        have hends : names (init ++ ['/']) = names init ++ [[]] := by
          rw [names, List.splitOn_append_cons_self]
          rfl
        rw [hinit, hends, List.dropLast_concat, List.append_assoc, names, List.singleton_append,
          List.splitOn_append_cons_self]
        rfl
    have hne : names path ≠ [] := List.splitOn_ne_nil _ _
    have hstart : start dir (asDir base ++ path) = start dir (asDir base) := by
      cases hdir : asDir base with
      | nil => simp [start, habs]
      | cons c rest => rfl
    have hfrom : start (resolve dir base) path = resolve dir base := if_neg habs
    rw [join_eq habs]
    unfold way
    rw [hnames, List.dropLast_append_of_ne_nil hne, visited_append, hstart,
      foldl_names_dropLast (asDir_ends base), resolve_asDir, hfrom]
    exact List.subset_append_right _ _

/-! ### Extensions -/

/-- The text up to the last dot of a name. -/
def upToDot (name : List Char) : List Char := name.rdropWhile (· ≠ '.')

/-- There is an extension after the last dot of the name: a name whose only dot is its first
character has none, and neither has `..`. -/
def HasExtension (name : List Char) : Prop :=
  upToDot name ≠ [] ∧ upToDot name ≠ ['.'] ∧ name ≠ ['.', '.']

instance (name : List Char) : Decidable (HasExtension name) :=
  inferInstanceAs (Decidable (_ ∧ _))

/-- `file_stem`, for a name. -/
def stem (name : List Char) : List Char :=
  if HasExtension name then (upToDot name).dropLast else name

/-- `set_extension`, for a path that ends in a name: one that ends in `..` has no file name and stays
as it is. -/
def setExtension (path extension : List Char) : List Char :=
  if namePart path = ['.', '.'] then path
  else dirPart path ++ (stem (namePart path) ++ '.' :: extension)

/-- `with_extension`: the path is copied up to the dot before its old extension, then the new one is
set. -/
def withExtension (path extension : List Char) : List Char :=
  setExtension
    (if HasExtension (namePart path) then dirPart path ++ upToDot (namePart path) else path)
    extension

theorem upToDot_append (name : List Char) {extension : List Char} (h : '.' ∉ extension) :
    upToDot (name ++ '.' :: extension) = name ++ ['.'] := by
  have hall : ∀ c ∈ extension.reverse, decide (c ≠ '.') = true := by
    intro c hc
    rw [decide_eq_true_iff]
    rintro rfl
    exact h (List.mem_reverse.1 hc)
  unfold upToDot List.rdropWhile
  rw [List.reverse_append, List.reverse_cons, List.append_assoc,
    List.dropWhile_append_of_pos hall]
  simp

theorem hasExtension_append {name extension : List Char} (h : '.' ∉ extension) :
    HasExtension (name ++ '.' :: extension) ↔
      name ≠ [] ∧ name ++ '.' :: extension ≠ ['.', '.'] := by
  simp [HasExtension, upToDot_append name h]

/-- **Replacing an extension.**  A name that is nothing but an extension gets the new one appended,
and of a name that is a dot with an extension `..` is left. -/
theorem withExtension_append (path : List Char) {old : List Char} (extension : List Char)
    (hdot : '.' ∉ old) (hslash : '/' ∉ old) (hne : old ≠ []) :
    withExtension (path ++ '.' :: old) extension = dirPart path ++
      (if namePart path = [] then '.' :: old ++ '.' :: extension
      else if namePart path = ['.'] then ['.', '.']
      else namePart path ++ '.' :: extension) := by
  have hsuffix : '/' ∉ '.' :: old := by simpa using hslash
  obtain ⟨hdir, hname⟩ := parts_append path hsuffix
  have hdots : ∀ name : List Char, name ++ '.' :: old ≠ ['.', '.'] := by
    intro name heq
    have hlast := congrArg List.getLast? heq
    rw [List.getLast?_append, List.getLast?_cons, List.getLast?_eq_some_getLast hne] at hlast
    have hget : old.getLast hne = '.' := by simpa using hlast
    exact hdot (hget ▸ List.getLast_mem hne)
  have hset : ∀ name : List Char, '/' ∉ name →
      setExtension (dirPart path ++ name) extension = if name = ['.', '.'] then dirPart path ++ name
        else dirPart path ++ (stem name ++ '.' :: extension) := by
    intro name hmem
    obtain ⟨hdir', hname'⟩ := parts_of_split (dirPart_ends path) hmem
    rw [setExtension, hdir', hname']
  have hslash' : '/' ∉ namePart path := slash_not_mem_namePart path
  rw [withExtension, hdir, hname]
  by_cases hnil : namePart path = []
  · have hno : ¬ HasExtension ('.' :: old) := fun hext =>
      ((hasExtension_append hdot).1 (show HasExtension ([] ++ '.' :: old) from hext)).1 rfl
    have hpath : path ++ '.' :: old = dirPart path ++ '.' :: old := by
      conv_lhs => rw [← dirPart_append_namePart path, hnil, List.append_nil]
    have hdots' : '.' :: old ≠ ['.', '.'] := hdots []
    rw [hnil, List.nil_append, if_neg hno, hpath, hset _ hsuffix, if_neg hdots', stem, if_neg hno,
      if_pos rfl]
  · have hyes := (hasExtension_append hdot).2 ⟨hnil, hdots (namePart path)⟩
    rw [if_pos hyes, upToDot_append _ hdot, hset _ (by simpa using hslash'), if_neg hnil]
    by_cases hone : namePart path = ['.']
    · rw [hone]
      rfl
    · have hdots' : namePart path ++ ['.'] ≠ ['.', '.'] := by
        intro heq
        exact hone (List.append_cancel_right heq)
      have hyes' := (hasExtension_append (List.not_mem_nil : '.' ∉ [])).2 ⟨hnil, hdots'⟩
      rw [if_neg hdots', if_neg hone, stem, if_pos hyes', upToDot_append _ List.not_mem_nil,
        List.dropLast_concat]

end Path

end Roster
