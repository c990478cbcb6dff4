import Roster.Data.Tree
import Roster.LTS.Basic
import Roster.Paths
import Roster.Workflow.Dag

/-!
# The files of a job

A job's log is its id with `.log` appended, joined to the directory of its run, and the wrapper
writes its exit code to the same path with the extension `exit`.  `validate` asks that the ids of a
workflow differ and nothing else of their text, so what decides whether two jobs have separate files
is where their ids lead when they are read as paths (`jobPlace`) and which directories their logs
are in (`logWay`).

`find` takes a job over whose exit file exists, be it a directory that was made for a log.
`RunFiles.lts` are the histories of a run's files: launches, which may fail at every call, and what
the wrappers do.

* `logLocation_eq`, `exitLocation_eq` : the directory and the name of the two files.
* `Placed.reach` : what there is in any history of jobs whose files are apart.
* `separateFiles_iff` : the jobs of a run have separate files in the run's directory exactly when
  their ids keep them apart.
-/

namespace Roster

/-- `path.with_extension(extension)`, for a path that ends in a name. -/
def withExtension (path extension : String) : String :=
  String.ofList (Path.withExtension path.toList extension.toList)

/-- The file the wrapper of a job writes its exit code to. -/
def exitFilePath (home runId jobId : String) : String :=
  withExtension (jobLogPath home runId jobId) "exit"

/-- The directory of a run relative to HOME. -/
def runRelpath (runId : String) : String :=
  joinPath (joinPath (joinPath (joinPath ".local" "share") "roster") "runs") runId

/-- The directory of a run; `cwd` is the daemon's working directory. -/
def runDir (cwd : Path.Dir) (home runId : String) : Path.Dir :=
  Path.resolve cwd (joinPath home (runRelpath runId)).toList

/-- The file a job's output goes to. -/
def logLocation (cwd : Path.Dir) (home runId jobId : String) : Path.Dir :=
  Path.resolve cwd (jobLogPath home runId jobId).toList

/-- The directories that `launch` makes for it. -/
def logWay (cwd : Path.Dir) (home runId jobId : String) : List Path.Dir :=
  Path.way cwd (jobLogPath home runId jobId).toList

/-- The file a job's exit code goes to. -/
def exitLocation (cwd : Path.Dir) (home runId jobId : String) : Path.Dir :=
  Path.resolve cwd (exitFilePath home runId jobId).toList

/-- The file the wrapper writes before it moves it there. -/
def tempFilePath (home runId jobId : String) : String := exitFilePath home runId jobId ++ ".tmp"

/-- The existence of its exit file makes `launch` take a job over instead of starting it. -/
def tookOver (cwd : Path.Dir) (home runId : String) (tree : Path.Tree) (jobId : String) : Prop :=
  tree.Has cwd (exitFilePath home runId jobId).toList

instance (cwd : Path.Dir) (home runId : String) (tree : Path.Tree) (jobId : String) :
    Decidable (tookOver cwd home runId tree jobId) :=
  inferInstanceAs (Decidable (tree.Has _ _))

/-! ### Histories of a run's files -/

/-- The machine's tree, the jobs of the run whose wrapper runs, and those whose exit code is in its
file. -/
structure RunFiles where
  tree : Path.Tree
  running : List String
  written : List String

/-- What happens to the files of a run.  A call may fail for a reason outside of the tree, such as a
full disk. -/
inductive FilesEvent
  /-- A launch that makes the first `places` directories of the log's way before a call fails;
  `opens`, `spawns`: whether the log is opened and the wrapper started. -/
  | launch (jobId : String) (places : ℕ) (opens spawns : Bool)
  /-- The wrapper writes the exit code beside the exit file. -/
  | writesTemp (jobId : String)
  /-- It moves that file to the exit file. -/
  | moves (jobId : String)
  /-- The wrapper is gone: it ended or was killed. -/
  | ends (jobId : String)

section

variable (cwd : Path.Dir) (home runId : String)

/-- `launch`, after `find` found nothing. -/
def RunFiles.launch (files : RunFiles) (jobId : String) (places : ℕ) (opens spawns : Bool) :
    RunFiles :=
  let made := files.tree.mkdirs ((logWay cwd home runId jobId).take places)
  if made.2 ∧ (logWay cwd home runId jobId).length ≤ places ∧ opens then
    match made.1.write cwd (jobLogPath home runId jobId).toList with
    | some tree =>
      { files with
        tree := tree
        running := if spawns then jobId :: files.running else files.running }
    | none => { files with tree := made.1 }
  else { files with tree := made.1 }

/-- The state after an event. -/
def RunFiles.perform (ids : List String) (files : RunFiles) : FilesEvent → Option RunFiles
  | .launch jobId places opens spawns =>
    if jobId ∈ ids ∧ jobId ∉ files.running ∧ ¬ tookOver cwd home runId files.tree jobId then
      some (files.launch cwd home runId jobId places opens spawns)
    else none
  | .writesTemp jobId =>
    if jobId ∈ files.running then
      (files.tree.write cwd (tempFilePath home runId jobId).toList).map fun tree =>
        { files with tree := tree }
    else none
  | .moves jobId =>
    if jobId ∈ files.running then
      (files.tree.move cwd (tempFilePath home runId jobId).toList
        (exitFilePath home runId jobId).toList).map fun tree =>
          { files with
            tree := tree
            written :=
              if files.tree.IsDir (exitLocation cwd home runId jobId) then files.written
              else jobId :: files.written }
    else none
  | .ends jobId => some { files with running := files.running.erase jobId }

/-- The histories of the files of a run with the jobs `ids`. -/
def RunFiles.lts (ids : List String) : LTS RunFiles FilesEvent :=
  .ofPerform (RunFiles.perform cwd home runId ids)

/-- There is nothing in the directory of the run yet. -/
def NothingInside (tree : Path.Tree) : Prop :=
  ∀ place, Path.Inside (runDir cwd home runId) place → ¬ tree.IsDir place ∧ place ∉ tree.files

/-- Every job of the run has its files to itself, in the run's directory. -/
structure SeparateFiles (spec : WorkflowSpec) : Prop where
  log : ∀ a ∈ spec.ids, ∀ b ∈ spec.ids, a ≠ b →
    logLocation cwd home runId a ≠ logLocation cwd home runId b
  exit : ∀ a ∈ spec.ids, ∀ b ∈ spec.ids, a ≠ b →
    exitLocation cwd home runId a ≠ exitLocation cwd home runId b
  inside : ∀ a ∈ spec.ids, Path.Inside (runDir cwd home runId) (logLocation cwd home runId a) ∧
    Path.Inside (runDir cwd home runId) (exitLocation cwd home runId a)
  /-- In every history only a job whose own exit code is in its file is taken over. -/
  takeOver : ∀ tree, NothingInside cwd home runId tree → ∀ files,
    (RunFiles.lts cwd home runId spec.ids).Reach ⟨tree, [], []⟩ files →
      ∀ a ∈ spec.ids, tookOver cwd home runId files.tree a → a ∈ files.written

end

/-- Where an id leads as a path from `dir`: the directory that the text up to its last slash leads
to, and the text after it. -/
def jobPlace (dir : Path.Dir) (jobId : String) : Path.Dir × List Char :=
  (Path.resolve dir (Path.dirPart jobId.toList), Path.namePart jobId.toList)

/-- The ids stay in `dir` and lead to different places, none is `.` there, and no directory gets
both the empty name and `.log`, whose files both have their exit codes in `.log.exit`. -/
structure PlacedApart (dir : Path.Dir) (ids : List String) : Prop where
  within : ∀ a ∈ ids, dir <+: (jobPlace dir a).1
  distinct : ∀ a ∈ ids, ∀ b ∈ ids, a ≠ b → jobPlace dir a ≠ jobPlace dir b
  noDot : ∀ a ∈ ids, (jobPlace dir a).2 ≠ ['.']
  noHidden : ∀ a ∈ ids, ∀ b ∈ ids, (jobPlace dir a).1 = (jobPlace dir b).1 →
    (jobPlace dir a).2 = [] → (jobPlace dir b).2 ≠ ".log".toList

/-- And no exit file is at a directory that the log of a job, the same or another, is in or passes
through. -/
structure FilesApart (cwd : Path.Dir) (home runId : String) (ids : List String) : Prop
    extends PlacedApart (runDir cwd home runId) ids where
  noWay : ∀ a ∈ ids, ∀ b ∈ ids, exitLocation cwd home runId a ∉ logWay cwd home runId b

/-! ### Path texts -/

theorem toList_joinPath (base path : String) :
    (joinPath base path).toList = Path.join base.toList path.toList := by
  have hslash : "/".toList = ['/'] := rfl
  have hstarts : path.startsWith "/" = true ↔ path.toList.head? = some '/' := by
    rw [String.startsWith_string_iff, hslash, List.singleton_prefix_iff_head?_eq_some]
  have hends : base.endsWith "/" = true ↔ base.toList.getLast? = some '/' := by
    rw [← String.endsWith_toSlice, String.Slice.endsWith_string_iff, String.copy_toSlice, hslash,
      List.singleton_suffix_iff_getLast?_eq_some]
  unfold joinPath Path.join
  simp only [hstarts, hends]
  split_ifs <;> simp_all

@[simp] theorem toList_withExtension (path extension : String) :
    (withExtension path extension).toList =
      Path.withExtension path.toList extension.toList := by
  simp [withExtension]

theorem resolve_joinPath (cwd : Path.Dir) (base path : String) :
    Path.resolve cwd (joinPath base path).toList =
      Path.resolve (Path.resolve cwd base.toList) path.toList := by
  rw [toList_joinPath, Path.resolve_join]

/-- The name of a job's exit file, after the last slash of its id.  Of `..log`, the log of the id
`.`, replacing the extension leaves `..`. -/
def exitName (name : List Char) : List Char :=
  if name = [] then ".log.exit".toList
  else if name = ['.'] then "..".toList
  else name ++ ".exit".toList

section

variable (cwd : Path.Dir) (home runId jobId : String)

theorem toList_jobLogPath : (jobLogPath home runId jobId).toList = Path.join home.toList
    (Path.join (runRelpath runId).toList (jobId.toList ++ ".log".toList)) := by
  have hrel : jobLogRelpath runId jobId = joinPath (runRelpath runId) (jobId ++ ".log") := rfl
  rw [jobLogPath, hrel, toList_joinPath, toList_joinPath, String.toList_append]

theorem dirPart_jobLogPath : Path.dirPart (jobLogPath home runId jobId).toList =
    Path.join home.toList (Path.join (runRelpath runId).toList (Path.dirPart jobId.toList)) := by
  have hparts := Path.parts_append jobId.toList (show '/' ∉ ".log".toList by decide)
  rw [toList_jobLogPath, Path.dirPart_join, Path.dirPart_join, hparts.1]

theorem namePart_jobLogPath : Path.namePart (jobLogPath home runId jobId).toList =
    Path.namePart jobId.toList ++ ".log".toList := by
  have hparts := Path.parts_append jobId.toList (show '/' ∉ ".log".toList by decide)
  rw [toList_jobLogPath, Path.namePart_join, Path.namePart_join, hparts.2]

/-- The text of a log's path up to its last slash leads to where the id is placed. -/
theorem resolve_dirPart_jobLogPath :
    Path.resolve cwd (Path.dirPart (jobLogPath home runId jobId).toList) =
      (jobPlace (runDir cwd home runId) jobId).1 := by
  rw [dirPart_jobLogPath, Path.resolve_join, Path.resolve_join, jobPlace, runDir, resolve_joinPath]

theorem toList_exitFilePath : (exitFilePath home runId jobId).toList =
    Path.dirPart (jobLogPath home runId jobId).toList ++ exitName (Path.namePart jobId.toList) := by
  have hjoin : (jobLogPath home runId jobId).toList = Path.join home.toList
      (Path.join (runRelpath runId).toList jobId.toList) ++ '.' :: "log".toList := by
    have hlog : '/' ∉ ".log".toList := by decide
    rw [toList_jobLogPath, Path.join_append _ _ hlog, Path.join_append _ _ hlog]
    rfl
  rw [dirPart_jobLogPath, exitFilePath, toList_withExtension, hjoin,
    Path.withExtension_append _ _ (by decide) (by decide) (by decide), Path.dirPart_join,
    Path.dirPart_join, Path.namePart_join, Path.namePart_join]
  rfl

theorem slash_not_mem_exitName : '/' ∉ exitName (Path.namePart jobId.toList) := by
  unfold exitName
  split_ifs
  · decide
  · decide
  · rw [List.mem_append, not_or]
    exact ⟨Path.slash_not_mem_namePart _, by decide⟩

end

/-! ### Where the files are -/

/-- A name that is long enough is neither `.` nor `..`. -/
theorem plain_of_length {name : List Char} (hlength : 2 < name.length) (hslash : '/' ∉ name) :
    Path.Plain name where
  ne_nil := by rintro rfl; simp at hlength
  ne_dot := by rintro rfl; simp at hlength
  ne_dots := by rintro rfl; simp at hlength
  noSlash := hslash

section

variable (cwd : Path.Dir) (home runId jobId : String)

theorem logLocation_eq :
    logLocation cwd home runId jobId = (jobPlace (runDir cwd home runId) jobId).1 ++
      [(jobPlace (runDir cwd home runId) jobId).2 ++ ".log".toList] := by
  have hslash : '/' ∉ Path.namePart jobId.toList ++ ".log".toList := by
    rw [List.mem_append, not_or]
    exact ⟨Path.slash_not_mem_namePart _, by decide⟩
  have hplain := plain_of_length (by simp) hslash
  rw [logLocation, ← Path.dirPart_append_namePart (jobLogPath home runId jobId).toList,
    namePart_jobLogPath, Path.resolve_parts (Path.dirPart_ends _) hslash,
    resolve_dirPart_jobLogPath, hplain.enter]
  rfl

theorem exitLocation_eq : exitLocation cwd home runId jobId =
    Path.enter (jobPlace (runDir cwd home runId) jobId).1
      (exitName (jobPlace (runDir cwd home runId) jobId).2) := by
  rw [exitLocation, toList_exitFilePath,
    Path.resolve_parts (Path.dirPart_ends _) (slash_not_mem_exitName jobId),
    resolve_dirPart_jobLogPath]
  rfl

/-- The exit file's path passes the directories that the log's does. -/
theorem way_exitFilePath :
    Path.way cwd (exitFilePath home runId jobId).toList = logWay cwd home runId jobId := by
  have hparts := Path.parts_of_split (Path.dirPart_ends (jobLogPath home runId jobId).toList)
    (slash_not_mem_exitName jobId)
  rw [logWay, Path.way_eq, Path.way_eq, toList_exitFilePath, hparts.1]

/-- The wrapper writes beside the log, whatever the id is. -/
theorem tempFile_eq : Path.resolve cwd (tempFilePath home runId jobId).toList =
      (jobPlace (runDir cwd home runId) jobId).1 ++
        [exitName (jobPlace (runDir cwd home runId) jobId).2 ++ ".tmp".toList] := by
  have hslash : '/' ∉ exitName (Path.namePart jobId.toList) ++ ".tmp".toList := by
    rw [List.mem_append, not_or]
    exact ⟨slash_not_mem_exitName jobId, by decide⟩
  have hplain : Path.Plain (exitName (Path.namePart jobId.toList) ++ ".tmp".toList) :=
    plain_of_length (by simp) hslash
  rw [tempFilePath, String.toList_append, toList_exitFilePath, List.append_assoc,
    Path.resolve_parts (Path.dirPart_ends _) hslash, resolve_dirPart_jobLogPath, hplain.enter]
  rfl

variable {cwd home runId jobId}

/-- Only the id `.` has an exit file that is not beside its log. -/
theorem exitName_plain (h : Path.namePart jobId.toList ≠ ['.']) :
    Path.Plain (exitName (Path.namePart jobId.toList)) := by
  refine plain_of_length ?_ (slash_not_mem_exitName jobId)
  unfold exitName
  rw [if_neg h]
  split_ifs <;> simp

theorem exitLocation_eq_concat (h : (jobPlace (runDir cwd home runId) jobId).2 ≠ ['.']) :
    exitLocation cwd home runId jobId = (jobPlace (runDir cwd home runId) jobId).1 ++
      [exitName (jobPlace (runDir cwd home runId) jobId).2] := by
  rw [exitLocation_eq]
  exact (exitName_plain h).enter

end

theorem exitName_eq_iff {name other : List Char} (hname : name ≠ ['.']) (hother : other ≠ ['.']) :
    exitName name = exitName other ↔ name = other ∨ (name = [] ∧ other = ".log".toList) ∨
      (name = ".log".toList ∧ other = []) := by
  have hlog : ".log.exit".toList = ".log".toList ++ ".exit".toList := rfl
  unfold exitName
  rw [if_neg hname, if_neg hother]
  by_cases hnil : name = [] <;> by_cases hnil' : other = []
  · simp [hnil, hnil']
  · rw [if_pos hnil, if_neg hnil', hlog, List.append_cancel_right_eq]
    constructor
    · intro hlog
      exact .inr (.inl ⟨hnil, hlog.symm⟩)
    · rintro (heq | ⟨-, hlog⟩ | ⟨-, hnil⟩)
      · exact absurd (heq.symm.trans hnil) hnil'
      · exact hlog.symm
      · exact absurd hnil hnil'
  · rw [if_neg hnil, if_pos hnil', hlog, List.append_cancel_right_eq]
    simp [hnil, hnil']
  · rw [if_neg hnil, if_neg hnil', List.append_cancel_right_eq]
    simp [hnil, hnil']

/-- An exit file ends in `t`, a log in `g` and the file the wrapper writes first in `p`. -/
theorem getLast?_exitName {name : List Char} (h : name ≠ ['.']) :
    (exitName name).getLast? = some 't' := by
  unfold exitName
  rw [if_neg h]
  split_ifs
  · rfl
  · rw [List.getLast?_append]
    rfl

section

variable {cwd : Path.Dir} {home runId : String} {ids : List String} {a b : String}

theorem logLocation_eq_iff : logLocation cwd home runId a = logLocation cwd home runId b ↔
    jobPlace (runDir cwd home runId) a = jobPlace (runDir cwd home runId) b := by
  rw [logLocation_eq, logLocation_eq, List.append_singleton_inj, List.append_cancel_right_eq,
    Prod.ext_iff]

namespace PlacedApart

variable (h : PlacedApart (runDir cwd home runId) ids)
include h

theorem exitLocation_ne (ha : a ∈ ids) (hb : b ∈ ids) (hne : a ≠ b) :
    exitLocation cwd home runId a ≠ exitLocation cwd home runId b := by
  intro heq
  rw [exitLocation_eq_concat (h.noDot a ha), exitLocation_eq_concat (h.noDot b hb),
    List.append_singleton_inj] at heq
  obtain ⟨hdir, hname⟩ := heq
  rcases (exitName_eq_iff (h.noDot a ha) (h.noDot b hb)).1 hname with
    hsame | ⟨hnil, hlog⟩ | ⟨hlog, hnil⟩
  · exact h.distinct a ha b hb hne (Prod.ext hdir hsame)
  · exact h.noHidden a ha b hb hdir hnil hlog
  · exact h.noHidden b hb a ha hdir.symm hnil hlog

theorem inside (ha : a ∈ ids) :
    Path.Inside (runDir cwd home runId) (logLocation cwd home runId a) ∧
      Path.Inside (runDir cwd home runId) (exitLocation cwd home runId a) := by
  rw [logLocation_eq, exitLocation_eq_concat (h.noDot a ha), Path.inside_concat,
    Path.inside_concat]
  exact ⟨h.within a ha, h.within a ha⟩

theorem exitLocation_ne_log (ha : a ∈ ids) (b : String) :
    exitLocation cwd home runId a ≠ logLocation cwd home runId b := by
  intro heq
  rw [exitLocation_eq_concat (h.noDot a ha), logLocation_eq, List.append_singleton_inj] at heq
  have hlast := congrArg List.getLast? heq.2
  rw [getLast?_exitName (h.noDot a ha), List.getLast?_append] at hlast
  simp at hlast

theorem exitLocation_ne_temp (ha : a ∈ ids) (b : String) :
    exitLocation cwd home runId a ≠ Path.resolve cwd (tempFilePath home runId b).toList := by
  intro heq
  rw [exitLocation_eq_concat (h.noDot a ha), tempFile_eq, List.append_singleton_inj] at heq
  have hlast := congrArg List.getLast? heq.2
  rw [getLast?_exitName (h.noDot a ha), List.getLast?_append] at hlast
  simp at hlast

end PlacedApart

end

/-! ### Histories -/

/-- Nothing is where an exit file belongs but that exit file. -/
structure Placed (cwd : Path.Dir) (home runId : String) (ids : List String) (files : RunFiles) :
    Prop where
  running : files.running ⊆ ids
  noDir : ∀ a ∈ ids, ¬ files.tree.IsDir (exitLocation cwd home runId a)
  own : ∀ a ∈ ids, exitLocation cwd home runId a ∈ files.tree.files → a ∈ files.written

section

variable {cwd : Path.Dir} {home runId : String} {ids : List String} {tree : Path.Tree}
  {files files' : RunFiles} {event : FilesEvent} {a b : String}

variable (cwd home runId) in
/-- A launch makes directories on the way of the log and opens the log. -/
theorem RunFiles.launch_spec (files : RunFiles) (jobId : String) (places : ℕ)
    (opens spawns : Bool) :
    let launched := files.launch cwd home runId jobId places opens spawns
    launched.written = files.written ∧
      (∀ other ∈ launched.running, other = jobId ∨ other ∈ files.running) ∧
      (∀ place ∈ launched.tree.dirs, place ∈ files.tree.dirs ∨
        place ∈ logWay cwd home runId jobId) ∧
      ∀ place ∈ launched.tree.files, place = logLocation cwd home runId jobId ∨
        place ∈ files.tree.files := by
  have hmade : ∀ place ∈ (files.tree.mkdirs ((logWay cwd home runId jobId).take places)).1.dirs,
      place ∈ files.tree.dirs ∨ place ∈ logWay cwd home runId jobId := fun place hplace =>
    (Path.Tree.mkdirs_dirs hplace).imp_right fun hmem => List.take_subset _ _ hmem
  have hold : ∀ place ∈ (files.tree.mkdirs ((logWay cwd home runId jobId).take places)).1.files,
      place = logLocation cwd home runId jobId ∨ place ∈ files.tree.files := fun place hplace =>
    .inr (by rwa [Path.Tree.mkdirs_files] at hplace)
  unfold RunFiles.launch
  dsimp only
  split
  · split
    · rename_i logged hlogged
      obtain rfl := Path.Tree.write_eq_some hlogged
      refine ⟨rfl, fun other hother => ?_, hmade, fun place hplace => ?_⟩
      · split at hother
        · exact List.mem_cons.1 hother
        · exact .inr hother
      · exact (List.mem_cons.1 hplace).elim .inl (hold place)
    · exact ⟨rfl, fun other hother => .inr hother, hmade, hold⟩
  · exact ⟨rfl, fun other hother => .inr hother, hmade, hold⟩

theorem Placed.init (h : PlacedApart (runDir cwd home runId) ids)
    (hempty : NothingInside cwd home runId tree) : Placed cwd home runId ids ⟨tree, [], []⟩ where
  running := List.nil_subset ids
  noDir _ ha := (hempty _ (h.inside ha).2).1
  own _ ha hfile := absurd hfile (hempty _ (h.inside ha).2).2

/-- **One event**, when the files are apart. -/
theorem Placed.step (hapart : FilesApart cwd home runId ids) (h : Placed cwd home runId ids files)
    (hstep : (RunFiles.lts cwd home runId ids).step files event files') :
    Placed cwd home runId ids files' := by
  cases event with
  | launch jobId places opens spawns =>
    simp only [RunFiles.lts, LTS.ofPerform, RunFiles.perform, Option.ite_none_right_eq_some,
      Option.some.injEq] at hstep
    obtain ⟨⟨hmem, -, -⟩, rfl⟩ := hstep
    obtain ⟨hwritten, hrunning, hdirs, hfiles⟩ :=
      files.launch_spec cwd home runId jobId places opens spawns
    refine ⟨fun other hother => ?_, fun a ha hdir => ?_, fun a ha hfile => ?_⟩
    · rcases hrunning other hother with rfl | hold
      · exact hmem
      · exact h.running hold
    · rcases hdir with hroot | hdir
      · exact h.noDir a ha (.inl hroot)
      · rcases hdirs _ hdir with hold | hway
        · exact h.noDir a ha (.inr hold)
        · exact hapart.noWay a ha jobId hmem hway
    · rw [hwritten]
      rcases hfiles _ hfile with hlog | hold
      · exact absurd hlog (hapart.exitLocation_ne_log ha jobId)
      · exact h.own a ha hold
  | writesTemp jobId =>
    simp only [RunFiles.lts, LTS.ofPerform, RunFiles.perform, Option.ite_none_right_eq_some,
      Option.map_eq_some_iff] at hstep
    obtain ⟨-, tree, hwrite, rfl⟩ := hstep
    obtain rfl := Path.Tree.write_eq_some hwrite
    refine ⟨h.running, h.noDir, fun a ha hfile => ?_⟩
    rcases List.mem_cons.1 hfile with htemp | hold
    · exact absurd htemp (hapart.exitLocation_ne_temp ha jobId)
    · exact h.own a ha hold
  | moves jobId =>
    simp only [RunFiles.lts, LTS.ofPerform, RunFiles.perform, Option.ite_none_right_eq_some,
      Option.map_eq_some_iff] at hstep
    obtain ⟨hrunning, tree, hmove, rfl⟩ := hstep
    have hmem := h.running hrunning
    have hnoDir := h.noDir jobId hmem
    obtain ⟨hdirs, hfiles⟩ := Path.Tree.move_eq_some hmove
    -- the exit file is no directory, so the wrapper's file gets its name
    have htarget : files.tree.target cwd (tempFilePath home runId jobId).toList
        (exitFilePath home runId jobId).toList = exitLocation cwd home runId jobId :=
      if_neg hnoDir
    rw [htarget] at hfiles
    simp only [if_neg hnoDir]
    refine ⟨h.running, fun a ha => ?_, fun a ha hfile => ?_⟩
    · rw [Path.Tree.IsDir, hdirs]
      exact h.noDir a ha
    · rcases hfiles _ hfile with hexit | hold
      · have hsame : a = jobId := by
          by_contra hne
          exact hapart.exitLocation_ne ha hmem hne hexit
        exact hsame ▸ List.mem_cons_self
      · exact List.mem_cons_of_mem jobId (h.own a ha hold)
  | ends jobId =>
    obtain rfl := Option.some.inj hstep
    exact ⟨fun other hother => h.running (List.mem_of_mem_erase hother), h.noDir, h.own⟩

theorem Placed.reach (hapart : FilesApart cwd home runId ids)
    (hempty : NothingInside cwd home runId tree)
    (hreach : (RunFiles.lts cwd home runId ids).Reach ⟨tree, [], []⟩ files) :
    Placed cwd home runId ids files :=
  hreach.invariant (.init hapart.toPlacedApart hempty) fun _ _ _ _ h hstep => h.step hapart hstep

/-- Only what was written for it is taken for the exit file of a job. -/
theorem Placed.written_of_tookOver (h : Placed cwd home runId ids files) (ha : a ∈ ids)
    (htook : tookOver cwd home runId files.tree a) : a ∈ files.written :=
  h.own a ha (htook.2.resolve_left (h.noDir a ha))

end

/-! ### Separate files -/

section

variable {cwd : Path.Dir} {home runId : String} {ids : List String} {files : RunFiles}
  {spec : WorkflowSpec} {a b : String}

/-- A launch that can't open the log leaves the directories that it made. -/
theorem RunFiles.launch_fails (hfiles : files.tree.files = []) (ha : a ∈ ids)
    (hrunning : a ∉ files.running) (hnot : ¬ tookOver cwd home runId files.tree a) :
    ∃ files' event, (RunFiles.lts cwd home runId ids).step files event files' ∧
      files'.tree.files = [] ∧ files'.running = files.running ∧
      files'.written = files.written ∧
      (∀ place ∈ logWay cwd home runId a, files'.tree.IsDir place) ∧
      ∀ place, files.tree.IsDir place → files'.tree.IsDir place := by
  have hmade : ∀ place ∈ logWay cwd home runId a,
      (files.tree.mkdirs (logWay cwd home runId a)).1.IsDir place :=
    (Path.Tree.isDir_mkdirs (by simp [hfiles])).2
  have hlaunch : files.launch cwd home runId a (logWay cwd home runId a).length false false =
      { files with tree := (files.tree.mkdirs (logWay cwd home runId a)).1 } := by
    simp only [RunFiles.launch, List.take_length, Bool.false_eq_true, and_false, if_false]
  have hstep : RunFiles.perform cwd home runId ids files
      (.launch a (logWay cwd home runId a).length false false) =
        some { files with tree := (files.tree.mkdirs (logWay cwd home runId a)).1 } := by
    rw [RunFiles.perform, if_pos ⟨ha, hrunning, hnot⟩, hlaunch]
  have hkept : ∀ place, files.tree.IsDir place →
      (files.tree.mkdirs (logWay cwd home runId a)).1.IsDir place := fun _ hdir => hdir.mkdirs _
  have hnone : (files.tree.mkdirs (logWay cwd home runId a)).1.files = [] := by
    rw [Path.Tree.mkdirs_files, hfiles]
  generalize (files.tree.mkdirs (logWay cwd home runId a)).1 = tree at hstep hmade hkept hnone
  exact ⟨{ files with tree := tree }, _, hstep, hnone, rfl, rfl, hmade, hkept⟩

/-- When the exit file of a job is where a log needs a directory, two launches that end there are
enough to have a job taken over whose exit code was never written. -/
theorem RunFiles.tookOver_of_way (ha : a ∈ ids) (hb : b ∈ ids)
    (hway : exitLocation cwd home runId a ∈ logWay cwd home runId b) :
    ∃ files, (RunFiles.lts cwd home runId ids).Reach ⟨⟨[], []⟩, [], []⟩ files ∧
      ∃ c ∈ ids, c ∉ files.written ∧ tookOver cwd home runId files.tree c := by
  by_cases hfirst : tookOver cwd home runId ⟨[], []⟩ a
  · exact ⟨_, .refl, a, ha, List.not_mem_nil, hfirst⟩
  have hnone : (⟨⟨[], []⟩, [], []⟩ : RunFiles).tree.files = [] := rfl
  obtain ⟨mid, event, hstep, hfiles, hrunning, hwritten, hmade, -⟩ :=
    RunFiles.launch_fails hnone ha List.not_mem_nil hfirst
  have hmid := LTS.Reach.refl.tail hstep
  by_cases hsecond : tookOver cwd home runId mid.tree b
  · exact ⟨mid, hmid, b, hb, by simp [hwritten], hsecond⟩
  obtain ⟨last, event, hstep, -, -, hwritten', hmade', hkept⟩ :=
    RunFiles.launch_fails hfiles hb (by simp [hrunning]) hsecond
  refine ⟨last, hmid.tail hstep, a, ha, by simp [hwritten, hwritten'], ?_, .inl (hmade' _ hway)⟩
  intro place hplace
  rw [way_exitFilePath] at hplace
  exact hkept place (hmade place hplace)

theorem nothingInside_nil : NothingInside cwd home runId ⟨[], []⟩ := by
  intro place hinside
  refine ⟨?_, List.not_mem_nil⟩
  rintro (rfl | hmem)
  · exact hinside.2 (List.prefix_nil.1 hinside.1)
  · exact absurd hmem List.not_mem_nil

/-- The exit file of `.` is a directory that its log is below. -/
theorem exitLocation_mem_logWay (hdot : (jobPlace (runDir cwd home runId) a).2 = ['.'])
    (hinside : Path.Inside (runDir cwd home runId) (exitLocation cwd home runId a)) :
    exitLocation cwd home runId a ∈ logWay cwd home runId a := by
  have hup : exitLocation cwd home runId a =
      (jobPlace (runDir cwd home runId) a).1.dropLast := by
    rw [exitLocation_eq, hdot]
    rfl
  have hlog := (Path.parts_append a.toList (show '/' ∉ ".log".toList by decide)).1
  have hstart : ¬ exitLocation cwd home runId a <+: Path.start (runDir cwd home runId)
      (Path.dirPart (a.toList ++ ".log".toList)) := by
    intro hbefore
    have hback := hbefore.trans (Path.start_prefix _ _)
    exact hinside.2 (hinside.1.eq_of_length_le hback.length_le)
  have hway : exitLocation cwd home runId a ∈
      Path.way (runDir cwd home runId) (a.toList ++ ".log".toList) := by
    refine Path.mem_way hstart ?_
    rw [hlog, hup]
    exact List.dropLast_prefix _
  rw [runDir, resolve_joinPath] at hway
  rw [logWay, toList_jobLogPath]
  exact Path.way_subset_join _ _ (Path.way_subset_join _ _ hway)

namespace SeparateFiles

variable (h : SeparateFiles cwd home runId spec)
include h

theorem noWay (ha : a ∈ spec.ids) (hb : b ∈ spec.ids) :
    exitLocation cwd home runId a ∉ logWay cwd home runId b := by
  intro hway
  obtain ⟨files, hreach, c, hc, hnot, htook⟩ := RunFiles.tookOver_of_way ha hb hway
  exact hnot (h.takeOver _ nothingInside_nil files hreach c hc htook)

theorem placedApart : PlacedApart (runDir cwd home runId) spec.ids := by
  have hnoDot : ∀ a ∈ spec.ids, (jobPlace (runDir cwd home runId) a).2 ≠ ['.'] :=
    fun a ha hdot => h.noWay ha ha (exitLocation_mem_logWay hdot (h.inside a ha).2)
  refine ⟨?_, ?_, hnoDot, ?_⟩
  · intro a ha
    have hinside := (h.inside a ha).1
    rwa [logLocation_eq, Path.inside_concat] at hinside
  · intro a ha b hb hne heq
    exact h.log a ha b hb hne (logLocation_eq_iff.2 heq)
  · intro a ha b hb hdir hnil hlog
    have hne : a ≠ b := by
      rintro rfl
      rw [hnil] at hlog
      cases hlog
    refine h.exit a ha b hb hne ?_
    rw [exitLocation_eq_concat (hnoDot a ha), exitLocation_eq_concat (hnoDot b hb), hdir,
      (exitName_eq_iff (hnoDot a ha) (hnoDot b hb)).2 (.inr (.inl ⟨hnil, hlog⟩))]

end SeparateFiles

/-- **When the jobs of a run have separate files.**  Read as a path from the directory of the run,
the text of every id up to its last slash leads to that directory or one below it, the text after
it is not `.`, no two ids lead to the same directory and name, no directory gets both the empty
name and `.log`, and no exit file is at a directory that a log is in or passes through. -/
theorem separateFiles_iff (cwd : Path.Dir) (home runId : String) (spec : WorkflowSpec) :
    SeparateFiles cwd home runId spec ↔ FilesApart cwd home runId spec.ids := by
  constructor
  · intro h
    exact ⟨h.placedApart, fun a ha b hb => h.noWay ha hb⟩
  · intro h
    refine ⟨?_, fun a ha b hb => h.exitLocation_ne ha hb, fun a ha => h.inside ha, ?_⟩
    · intro a ha b hb hne heq
      exact h.distinct a ha b hb hne (logLocation_eq_iff.1 heq)
    · intro tree hempty files hreach a ha htook
      exact (Placed.reach h hempty hreach).written_of_tookOver ha htook

end

/-- An accepted workflow whose first two ids lead to the same file, whose third leaves the directory
of the run, and whose fourth has its log in a directory named like the exit file of the fifth. -/
def aliased : WorkflowSpec :=
  ⟨"aliased", [{ id := "a", command := "true" }, { id := "./a", command := "false" },
    { id := "../b", command := "true" }, { id := "c.exit/d", command := "true" },
    { id := "c", command := "true" }]⟩

/-- Its first two jobs share their log and their exit file, so the second is taken over once the
first has ended, the third writes outside the run's directory, and a job is taken over that no
wrapper wrote an exit code for. -/
theorem aliased_notSeparate : Dag.Accepts aliased ∧
    logLocation [] "/root" "r" "a" = logLocation [] "/root" "r" "./a" ∧
    exitLocation [] "/root" "r" "a" = exitLocation [] "/root" "r" "./a" ∧
    ¬ Path.Inside (runDir [] "/root" "r") (logLocation [] "/root" "r" "../b") ∧
    (∃ files, (RunFiles.lts [] "/root" "r" aliased.ids).Reach ⟨⟨[], []⟩, [], []⟩ files ∧
      ∃ c ∈ aliased.ids, c ∉ files.written ∧ tookOver [] "/root" "r" files.tree c) ∧
    ¬ SeparateFiles [] "/root" "r" aliased := by
  have hdir : runDir [] "/root" "r" = ["root".toList, ".local".toList, "share".toList,
      "roster".toList, "runs".toList, "r".toList] := by
    simp only [runDir, runRelpath, toList_joinPath]
    decide
  have hsame : jobPlace (runDir [] "/root" "r") "a" = jobPlace (runDir [] "/root" "r") "./a" := by
    rw [hdir]
    decide
  have houtside : ¬ Path.Inside (runDir [] "/root" "r") (logLocation [] "/root" "r" "../b") := by
    rw [logLocation_eq, Path.inside_concat, hdir]
    decide
  have hway : exitLocation [] "/root" "r" "c" ∈ logWay [] "/root" "r" "c.exit/d" := by
    rw [exitLocation_eq, hdir, logWay, toList_jobLogPath]
    simp only [runRelpath, toList_joinPath]
    decide
  refine ⟨⟨aliased.jobs, .refl _, by decide⟩, logLocation_eq_iff.2 hsame, ?_, houtside,
    RunFiles.tookOver_of_way (by decide) (by decide) hway, ?_⟩
  · rw [exitLocation_eq, exitLocation_eq, hsame]
  · intro h
    exact houtside (h.inside "../b" (by decide)).1

/-- The directory of a run whose id is a name. -/
theorem runDir_eq {cwd : Path.Dir} {home runId : String} (h : Path.Plain runId.toList) :
    runDir cwd home runId = runDir cwd home "" ++ [runId.toList] := by
  have hnil : "".toList = [] := rfl
  simp only [runDir, runRelpath, resolve_joinPath, hnil, Path.resolve_nil]
  exact h.resolve

/-- Jobs of two runs have different exit files when the ids of both runs lead into their run's
directory. -/
theorem exitLocation_ne_of_run {cwd : Path.Dir} {home runId runId' a b : String}
    {ids ids' : List String} (hrun : Path.Plain runId.toList) (hrun' : Path.Plain runId'.toList)
    (hne : runId ≠ runId') (h : PlacedApart (runDir cwd home runId) ids)
    (h' : PlacedApart (runDir cwd home runId') ids') (ha : a ∈ ids) (hb : b ∈ ids') :
    exitLocation cwd home runId a ≠ exitLocation cwd home runId' b := by
  intro heq
  have hin := (h.inside ha).2.1
  have hin' := (h'.inside hb).2.1
  rw [heq] at hin
  have hlength : (runDir cwd home runId).length = (runDir cwd home runId').length := by
    rw [runDir_eq hrun, runDir_eq hrun', List.length_append, List.length_append]
    rfl
  have hsame :=
    List.IsPrefix.eq_of_length (List.prefix_of_prefix_length_le hin hin' hlength.le) hlength
  rw [runDir_eq hrun, runDir_eq hrun', List.append_singleton_inj] at hsame
  exact hne (String.toList_inj.1 hsame.2)

end Roster
