import Roster.Data.Path

/-!
# What is at a place

A path leads to a place (`Path.resolve`); a tree says which places are directories and which are
files.  What the calls on a path do depends on the places that it passes (`Path.way`) as well.

* `Path.Tree.mkdirs_dirs` : the directories that are new are among those that were to be made.
* `Path.Tree.isDir_mkdirs` : they are all there when no file is in the way.
-/

namespace Roster

namespace Path

/-- The directories and the files there are; the root is a directory in every tree. -/
structure Tree where
  dirs : List Dir
  files : List Dir
deriving DecidableEq

namespace Tree

def IsDir (tree : Tree) (place : Dir) : Prop := place = [] ∨ place ∈ tree.dirs

/-- All that a path passes on its way are directories. -/
def Leads (tree : Tree) (cwd : Dir) (path : List Char) : Prop :=
  ∀ place ∈ way cwd path, tree.IsDir place

/-- `exists`: there is something where the path leads to, a directory as well as a file. -/
def Has (tree : Tree) (cwd : Dir) (path : List Char) : Prop :=
  tree.Leads cwd path ∧ (tree.IsDir (resolve cwd path) ∨ resolve cwd path ∈ tree.files)

instance (tree : Tree) (place : Dir) : Decidable (tree.IsDir place) :=
  inferInstanceAs (Decidable (_ ∨ _))

instance (tree : Tree) (cwd : Dir) (path : List Char) : Decidable (tree.Leads cwd path) :=
  inferInstanceAs (Decidable (∀ place ∈ _, _))

instance (tree : Tree) (cwd : Dir) (path : List Char) : Decidable (tree.Has cwd path) :=
  inferInstanceAs (Decidable (_ ∧ _))

/-- `create_dir_all`: make the directories that are missing, one after the other.  It fails at a
file and leaves what was made before. -/
def mkdirs (tree : Tree) : List Dir → Tree × Bool
  | [] => (tree, true)
  | place :: places =>
    if place ∈ tree.files then (tree, false)
    else if tree.IsDir place then mkdirs tree places
    else mkdirs { tree with dirs := tree.dirs ++ [place] } places

/-- Open a file to write it, a new one where there is none. -/
def write (tree : Tree) (cwd : Dir) (path : List Char) : Option Tree :=
  if tree.Leads cwd path ∧ ¬ tree.IsDir (resolve cwd path) then
    some { tree with files := resolve cwd path :: tree.files }
  else none

/-- Where `mv` brings a file: a directory gets it under its old name. -/
def target (tree : Tree) (cwd : Dir) (source dest : List Char) : Dir :=
  if tree.IsDir (resolve cwd dest) then resolve cwd dest ++ [namePart source]
  else resolve cwd dest

/-- `mv`. -/
def move (tree : Tree) (cwd : Dir) (source dest : List Char) : Option Tree :=
  if tree.Leads cwd source ∧ resolve cwd source ∈ tree.files ∧ tree.Leads cwd dest ∧
      ¬ tree.IsDir (tree.target cwd source dest) then
    some { tree with
      files := tree.target cwd source dest :: tree.files.filter (· ≠ resolve cwd source) }
  else none

variable {tree tree' : Tree} {cwd place : Dir} {places : List Dir} {path source dest : List Char}

/-! ### Directories -/

@[simp] theorem mkdirs_files (tree : Tree) (places : List Dir) :
    (tree.mkdirs places).1.files = tree.files := by
  induction places generalizing tree with
  | nil => rfl
  | cons place places ih =>
    rw [mkdirs]
    split_ifs
    · rfl
    · exact ih tree
    · exact ih _

theorem mkdirs_dirs (h : place ∈ (tree.mkdirs places).1.dirs) :
    place ∈ tree.dirs ∨ place ∈ places := by
  induction places generalizing tree with
  | nil => exact .inl h
  | cons first places ih =>
    rw [mkdirs] at h
    split_ifs at h with hfile hdir
    · exact .inl h
    · exact (ih h).imp_right (List.mem_cons_of_mem first)
    · rcases ih h with hnew | hplace
      · rcases List.mem_append.1 hnew with hold | hfirst
        · exact .inl hold
        · exact .inr (List.mem_singleton.1 hfirst ▸ List.mem_cons_self)
      · exact .inr (List.mem_cons_of_mem first hplace)

theorem IsDir.mkdirs (h : tree.IsDir place) (places : List Dir) :
    (tree.mkdirs places).1.IsDir place := by
  induction places generalizing tree with
  | nil => exact h
  | cons first places ih =>
    rw [Tree.mkdirs]
    split_ifs
    · exact h
    · exact ih h
    · exact ih (h.imp_right (List.mem_append_left [first]))

/-- **All the directories are there** when none of them is a file. -/
theorem isDir_mkdirs (h : ∀ place ∈ places, place ∉ tree.files) :
    (tree.mkdirs places).2 = true ∧ ∀ place ∈ places, (tree.mkdirs places).1.IsDir place := by
  induction places generalizing tree with
  | nil => exact ⟨rfl, by simp⟩
  | cons first places ih =>
    obtain ⟨hfirst, hplaces⟩ := List.forall_mem_cons.1 h
    rw [mkdirs, if_neg hfirst]
    split_ifs with hdir
    · obtain ⟨hmade, hall⟩ := ih hplaces
      exact ⟨hmade, List.forall_mem_cons.2 ⟨hdir.mkdirs places, hall⟩⟩
    · have hnew : ∀ place ∈ places, place ∉ { tree with dirs := tree.dirs ++ [first] }.files :=
        hplaces
      obtain ⟨hmade, hall⟩ := ih hnew
      refine ⟨hmade, List.forall_mem_cons.2 ⟨IsDir.mkdirs (.inr ?_) places, hall⟩⟩
      exact List.mem_append_right _ (List.mem_singleton_self first)

/-! ### Files -/

theorem write_eq_some (h : tree.write cwd path = some tree') :
    tree' = { tree with files := resolve cwd path :: tree.files } := by
  unfold write at h
  split_ifs at h
  exact (Option.some.inj h).symm

theorem move_eq_some (h : tree.move cwd source dest = some tree') :
    tree'.dirs = tree.dirs ∧ ∀ place ∈ tree'.files,
      place = tree.target cwd source dest ∨ place ∈ tree.files := by
  unfold move at h
  split_ifs at h
  obtain rfl := Option.some.inj h
  refine ⟨rfl, fun place hplace => ?_⟩
  rcases List.mem_cons.1 hplace with htarget | hold
  · exact .inl htarget
  · exact .inr (List.mem_of_mem_filter hold)

end Tree

end Path

end Roster
