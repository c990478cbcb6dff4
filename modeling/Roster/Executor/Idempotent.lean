import Roster.Data.Places
import Roster.Executor.Worker

/-!
# One start for each job

What a worker knows of a job is in its map, in the job's scope or in its exit file, and each of the
three goes away at its own time: the map with the daemon, the scope with its last process.  While
one of them is left for every started job (`Worker.Core.found`) and the exit file holds what the
map forgot (`Worker.Core.answered`), `find` does not come up empty, so no job is started twice and
no answer changes (`worker_launchesOnce`).
-/

namespace Roster

namespace JobScope

/-- Only `rename` touches the exit file. -/
theorem exitFile_of_ne_rename {job job' : JobScope} {change : Change}
    (h : job.perform change = some job') (hne : change ≠ .rename) :
    job'.exitFile = job.exitFile := by
  rcases perform_cases h with ⟨-, -, rfl⟩ | ⟨-, -, rfl⟩ | ⟨_, -, -, rfl⟩ | ⟨_, _, -, -, -, rfl⟩ |
    ⟨_, _, hrename, -, rfl⟩ | ⟨_, -, -, -, rfl⟩ | ⟨_, -, -, rfl⟩
  all_goals first | rfl | exact absurd hrename hne

/-- A scope that has a process, or whose exit code is on file, stays so until its last process
ends without one. -/
theorem found_step {job job' : JobScope} {change : Change}
    (h : job.perform change = some job') (hfound : job.procs ≠ [] ∨ job.exitFile ≠ none)
    (hlast : ∀ pid, change = .dies pid → job.procs = [pid] → job.exitFile ≠ none) :
    job'.procs ≠ [] ∨ job'.exitFile ≠ none := by
  rcases perform_cases h with ⟨-, -, rfl⟩ | ⟨-, hphase, rfl⟩ | ⟨_, -, -, rfl⟩ |
    ⟨_, _, -, -, -, rfl⟩ | ⟨_, _, -, -, rfl⟩ | ⟨_, -, -, -, rfl⟩ | ⟨pid, hdies, hmem, rfl⟩
  · exact .inl (List.cons_ne_nil _ _)
  · exact hfound
  · exact hfound
  · exact .inl (List.cons_ne_nil _ _)
  · exact .inr (by simp)
  · exact .inl (List.cons_ne_nil _ _)
  · by_cases hfile : job.exitFile = none
    · refine .inl fun hnil => hlast pid hdies ?_ hfile
      have herase : job.procs.erase pid = [] := hnil
      exact (List.erase_eq_nil_iff.1 herase).resolve_left (List.ne_nil_of_mem hmem)
    · exact .inr hfile

end JobScope

section

variable {names : Names} {keys : Set Key}

/-- What a step of a job changes. -/
theorem World.perform_eq_some {world world' : World} {place : ℕ} {change : JobScope.Change}
    (h : world.perform names place change = some world') :
    ∃ start scope scope', world.starts[place]? = some start ∧ start.scope = some scope ∧
      scope.perform change = some scope' ∧
      world'.starts = world.starts.set place { start with scope := some scope' } ∧
      world'.files = if change = .rename then
        Function.update world.files (names.exitFile start.key) scope'.exitFile else world.files := by
  obtain ⟨start, hstart, hrest⟩ := Option.bind_eq_some_iff.1 h
  obtain ⟨scope, hscope, hrest⟩ := Option.bind_eq_some_iff.1 hrest
  obtain ⟨-, hrest⟩ := Option.ite_none_left_eq_some.1 hrest
  obtain ⟨scope', hchange, rfl⟩ := Option.map_eq_some_iff.1 hrest
  exact ⟨start, scope, scope', hstart, hscope, hchange, rfl, rfl⟩

namespace Worker

/-- A job that was started has its exit code on file. -/
def OnFile (names : Names) (w : Worker) (key : Key) : Prop :=
  key ∈ w.world.starts.map Start.key → w.world.files (names.exitFile key) ≠ none

/-- The exit code that was answered is known: to the map, or to the exit file of a job that the
daemon did not start itself and has not seen end. -/
def Knows (names : Names) (w : Worker) (key : Key) (exitCode : Int32) : Prop :=
  (∃ process, w.processes key = some process ∧ process.exitCode = some exitCode) ∨
    (readExitCode (w.world.files (names.exitFile key)) = some exitCode ∧
      ∀ process, w.processes key = some process → process.child = none ∧ process.exitCode = none)

/-- A Poll of the job was answered that exit code. -/
def Answered (w : Worker) (key : Key) (exitCode : Int32) : Prop :=
  (key, Answer.polled (some exitCode)) ∈ w.answers

/-- The invariant of a worker between two looks. -/
structure Core (names : Names) (keys : Set Key) (w : Worker) : Prop where
  scopes : w.scopes = true
  inKeys : ∀ start ∈ w.world.starts, start.key ∈ keys
  scope : ∀ start ∈ w.world.starts, ∃ scope, start.scope = some scope ∧ scope.Inv ∧
    w.world.files (names.exitFile start.key) = scope.exitFile
  nodup : w.AtMostOneStart
  found : ∀ start ∈ w.world.starts, ∀ scope, start.scope = some scope →
    w.processes start.key = none → scope.procs ≠ [] ∨ scope.exitFile ≠ none
  mapped : ∀ key process, w.processes key = some process → key ∈ keys ∧ process.hasScope = true
  answered : ∀ key exitCode, w.Answered key exitCode → key ∈ keys ∧ w.Knows names key exitCode
  stable : w.StableAnswers

/-- What the call under way has learned. -/
def CallOk (names : Names) (keys : Set Key) (w : Worker) : Call → Prop
  | .idle => True
  | .ask _ key => key ∈ keys ∧ w.processes key = none
  | .list _ key shown =>
    key ∈ keys ∧ w.processes key = none ∧ (shown = [] → w.OnFile names key)
  | .file _ key pids =>
    key ∈ keys ∧ w.processes key = none ∧ (pids = [] → w.OnFile names key)
  | .spawn key => key ∈ keys ∧ w.processes key = none ∧
    w.world.files (names.exitFile key) = none ∧ key ∉ w.world.starts.map Start.key
  | .wait key _ | .read key _ => ∃ process, w.processes key = some process ∧ process.exitCode = none
  -- no code was on file, so none was answered
  | .check key _ | .askScope key _ | .listScope key _ _ =>
    (∃ process, w.processes key = some process ∧ process.exitCode = none) ∧
      ∀ exitCode, ¬ w.Answered key exitCode

/-- The invariant of a worker. -/
structure Inv (names : Names) (keys : Set Key) (w : Worker) : Prop where
  core : w.Core names keys
  call : w.CallOk names keys w.call

variable {w w' : Worker}

theorem Fresh.inv (h : w.Fresh) : w.Inv names keys where
  core := by
    refine ⟨h.scopes, ?_, ?_, ?_, ?_, ?_, ?_, ?_⟩
    · simp [h.starts]
    · simp [h.starts]
    · simp [AtMostOneStart, h.starts]
    · simp [h.starts]
    · simp [h.processes]
    · simp [Answered, h.answers]
    · simp [StableAnswers, h.answers]
  call := by rw [h.call]; trivial

/-! ### The jobs go on -/

theorem Core.change {world' : World} {place : ℕ} {change : JobScope.Change}
    (h : w.Core names keys) (hapart : names.Apart keys)
    (hst : w.world.perform names place change = some world')
    (hsafe : w.Safe names keys (.change place change)) :
    Core names keys { w with world := world' } ∧
      world'.starts.map Start.key = w.world.starts.map Start.key ∧
      (∀ key ∈ keys, ∀ code, w.world.files (names.exitFile key) = some code →
        world'.files (names.exitFile key) = some code) ∧
      (∀ key ∈ keys, key ∉ w.world.starts.map Start.key →
        world'.files (names.exitFile key) = w.world.files (names.exitFile key)) := by
  obtain ⟨start, scope, scope', hget, hscope, hchange, hstarts, hfiles⟩ :=
    World.perform_eq_some hst
  have hmem : start ∈ w.world.starts := List.mem_of_getElem? hget
  obtain ⟨hscopeInv, hfile⟩ : scope.Inv ∧
      w.world.files (names.exitFile start.key) = scope.exitFile := by
    obtain ⟨same, hsame, hrest⟩ := h.scope start hmem
    obtain rfl := Option.some.inj (hscope.symm.trans hsame)
    exact hrest
  have hcases : ∀ {other}, other ∈ world'.starts → other = { start with scope := some scope' } ∨
      (other ∈ w.world.starts ∧ other.key ≠ start.key) := by
    intro other hother
    rw [hstarts] at hother
    exact mem_set_of_nodup h.nodup hget hother
  have hkeysEq : world'.starts.map Start.key = w.world.starts.map Start.key := by
    rw [hstarts]
    exact map_set_of_eq hget rfl
  have hother : ∀ key ∈ keys, key ≠ start.key →
      world'.files (names.exitFile key) = w.world.files (names.exitFile key) := by
    intro key hkey hne
    rw [hfiles]
    split_ifs
    · exact Function.update_of_ne (hapart key hkey start.key (h.inKeys start hmem) hne).2 _ _
    · rfl
  -- the exit file of the job that changes is its own; names that are apart keep the others'
  have hself : world'.files (names.exitFile start.key) = scope'.exitFile := by
    rw [hfiles]
    split_ifs with hrename
    · exact Function.update_self ..
    · rw [hfile, JobScope.exitFile_of_ne_rename hchange hrename]
  have hstays : ∀ key ∈ keys, ∀ code, w.world.files (names.exitFile key) = some code →
      world'.files (names.exitFile key) = some code := by
    intro key hkey code hcode
    by_cases heq : key = start.key
    · subst heq
      rw [hself]
      rw [hfile] at hcode
      exact JobScope.exitFile_of_reach hscopeInv hcode (LTS.Reach.refl.tail hchange)
    · rw [hother key hkey heq, hcode]
  refine ⟨⟨h.scopes, ?_, ?_, ?_, ?_, h.mapped, ?_, h.stable⟩, hkeysEq, hstays, ?_⟩
  · intro other hmem'
    rcases hcases hmem' with rfl | ⟨hold, -⟩
    · exact h.inKeys start hmem
    · exact h.inKeys other hold
  · intro other hmem'
    rcases hcases hmem' with rfl | ⟨hold, hne⟩
    · exact ⟨scope', rfl, hscopeInv.step hchange, hself⟩
    · obtain ⟨otherScope, hsome, hinv, hsame⟩ := h.scope other hold
      exact ⟨otherScope, hsome, hinv, (hother other.key (h.inKeys other hold) hne).trans hsame⟩
  · rw [AtMostOneStart, hkeysEq]
    exact h.nodup
  · intro other hmem' otherScope hsome hnone
    rcases hcases hmem' with rfl | ⟨hold, -⟩
    · obtain rfl := Option.some.inj hsome
      refine JobScope.found_step hchange (h.found start hmem scope hscope hnone) ?_
      intro pid hdies hlast hnofile
      exact hsafe start scope pid hget hscope hdies hlast hnone (hfile.trans hnofile)
    · exact h.found other hold otherScope hsome hnone
  · intro key code hanswered
    obtain ⟨hkey, hknows⟩ := h.answered key code hanswered
    refine ⟨hkey, hknows.imp_right fun ⟨hread, hprocess⟩ => ⟨?_, hprocess⟩⟩
    obtain ⟨onFile, hfile, hvalue⟩ := Option.map_eq_some_iff.1 hread
    show readExitCode (world'.files (names.exitFile key)) = some code
    rw [hstays key hkey onFile hfile]
    simpa [readExitCode] using hvalue
  · intro key hkey hnot
    refine hother key hkey ?_
    rintro rfl
    exact hnot (List.mem_map_of_mem hmem)

theorem Inv.change {world' : World} {place : ℕ} {change : JobScope.Change}
    (h : w.Inv names keys) (hapart : names.Apart keys)
    (hst : w.world.perform names place change = some world')
    (hsafe : w.Safe names keys (.change place change)) :
    Inv names keys { w with world := world' } := by
  obtain ⟨hcore, hstarted, hstays, hfresh⟩ := h.core.change hapart hst hsafe
  refine ⟨hcore, ?_⟩
  have honFile : ∀ key ∈ keys, w.OnFile names key →
      OnFile names { w with world := world' } key := by
    intro key hkey hon hmem
    obtain ⟨code, hcode⟩ := Option.ne_none_iff_exists'.1 (hon (hstarted ▸ hmem))
    show world'.files (names.exitFile key) ≠ none
    rw [hstays key hkey code hcode]
    exact Option.some_ne_none code
  have hcall := h.call
  revert hcall
  show w.CallOk names keys w.call → CallOk names keys { w with world := world' } w.call
  cases w.call with
  | idle => exact id
  | ask op key => exact id
  | list op key shown => exact fun ⟨hkey, hnone, hon⟩ =>
      ⟨hkey, hnone, fun hnil => honFile key hkey (hon hnil)⟩
  | file op key pids => exact fun ⟨hkey, hnone, hon⟩ =>
      ⟨hkey, hnone, fun hnil => honFile key hkey (hon hnil)⟩
  | spawn key => exact fun ⟨hkey, hnone, hfile, hnot⟩ =>
      ⟨hkey, hnone, (hfresh key hkey hnot).trans hfile, fun hmem => hnot (hstarted ▸ hmem)⟩
  | wait key answers => exact id
  | read key answers => exact id
  | check key answers => exact id
  | askScope key answers => exact id
  | listScope key answers shown => exact id

/-! ### Calls -/

theorem Core.done (h : w.Core names keys) : w.done.Inv names keys :=
  ⟨⟨h.scopes, h.inKeys, h.scope, h.nodup, h.found, h.mapped, h.answered, h.stable⟩, trivial⟩

/-- An answer that agrees with the earlier ones and is known. -/
theorem Core.answer {key : Key} {answer : Answer} (h : w.Core names keys)
    (hsame : ∀ code, w.Answered key code → answer = .polled (some code))
    (hknown : ∀ code, answer = .polled (some code) → key ∈ keys ∧ w.Knows names key code) :
    (w.answer key answer).Core names keys := by
  refine ⟨h.scopes, h.inKeys, h.scope, h.nodup, h.found, h.mapped, ?_, ?_⟩
  · intro other code hanswered
    rcases List.mem_append.1 hanswered with hold | hnew
    · exact h.answered other code hold
    · obtain ⟨rfl, heq⟩ := Prod.mk.inj (List.mem_singleton.1 hnew)
      exact hknown code heq.symm
  · refine List.pairwise_append.2 ⟨h.stable, List.pairwise_singleton .., ?_⟩
    rintro ⟨first, given⟩ hfirst _ hlater hkey code hcode
    obtain rfl := List.mem_singleton.1 hlater
    obtain rfl : first = key := hkey
    obtain rfl : given = .polled (some code) := hcode
    exact hsame code hfirst

/-- An entry of the map that knows what was answered. -/
theorem Core.insert {key : Key} {process : JobProcess} (h : w.Core names keys) (hkey : key ∈ keys)
    (hscope : process.hasScope = true)
    (hknown : ∀ code, w.Answered key code → process.exitCode = some code ∨
      (readExitCode (w.world.files (names.exitFile key)) = some code ∧ process.child = none ∧
        process.exitCode = none)) : (w.insert key process).Core names keys := by
  refine ⟨h.scopes, h.inKeys, h.scope, h.nodup, ?_, ?_, ?_, h.stable⟩
  · intro start hmem scope hsome hnone
    refine h.found start hmem scope hsome ?_
    by_cases heq : start.key = key
    · simp [Worker.insert, heq] at hnone
    · simpa [Worker.insert, heq] using hnone
  · intro other found hfound
    by_cases heq : other = key
    · subst heq
      obtain rfl : process = found := by simpa [Worker.insert] using hfound
      exact ⟨hkey, hscope⟩
    · exact h.mapped other found (by simpa [Worker.insert, heq] using hfound)
  · intro other code hanswered
    obtain ⟨hother, hknows⟩ := h.answered other code hanswered
    refine ⟨hother, ?_⟩
    by_cases heq : other = key
    · subst heq
      rcases hknown code hanswered with hcode | ⟨hread, hprocess⟩
      · exact .inl ⟨process, by simp [Worker.insert], hcode⟩
      · refine .inr ⟨hread, fun found hfound => ?_⟩
        obtain rfl : process = found := by simpa [Worker.insert] using hfound
        exact hprocess
    · simpa [Knows, Worker.insert, heq] using hknows

/-- The end of a poll of a job whose exit code was not in the map. -/
theorem Core.finish {key : Key} {process : JobProcess} {result : PollResult}
    (h : w.Core names keys) (hprocess : w.processes key = some process) (answers : Bool)
    (hsame : ∀ code, w.Answered key code → result = .exited code) :
    (w.finish key process answers result).Inv names keys := by
  obtain ⟨hkey, hscope⟩ := h.mapped key process hprocess
  cases result with
  | running =>
    have hnone : ∀ code, ¬ w.Answered key code := fun code hanswered => by
      cases hsame code hanswered
    have hinsert : (w.insert key { process with exitCode := none }).Core names keys :=
      h.insert hkey hscope fun code hanswered => absurd hanswered (hnone code)
    cases answers with
    | false => exact hinsert.done
    | true =>
      refine (hinsert.answer (fun code hanswered => absurd hanswered (hnone code)) ?_).done
      rintro code ⟨⟩
  | exited exitCode =>
    have hcode : ∀ code, w.Answered key code → exitCode = code := fun code hanswered =>
      PollResult.exited.inj (hsame code hanswered)
    have hinsert : (w.insert key { process with exitCode := some exitCode }).Core names keys :=
      h.insert hkey hscope fun code hanswered => .inl (congrArg some (hcode code hanswered))
    cases answers with
    | false => exact hinsert.done
    | true =>
      refine (hinsert.answer (fun code hanswered => by rw [hcode code hanswered]) ?_).done
      rintro code ⟨⟩
      exact ⟨hkey, .inl ⟨_, Function.update_self .., rfl⟩⟩

/-- A call that finds its job in the map answers what the map knows, or polls. -/
theorem Core.known {key : Key} {process : JobProcess} (h : w.Core names keys) (op : Op)
    (hprocess : w.processes key = some process) : (w.known op key process).Inv names keys := by
  cases op with
  | launch => exact h.done
  | kill => exact h.done
  | poll =>
    unfold Worker.known
    cases hcode : process.exitCode with
    | none =>
      exact ⟨⟨h.scopes, h.inKeys, h.scope, h.nodup, h.found, h.mapped, h.answered, h.stable⟩,
        process, hprocess, hcode⟩
    | some exitCode =>
      refine (h.answer ?_ ?_).done
      · intro code hanswered
        rcases (h.answered key code hanswered).2 with ⟨found, hfound, hsome⟩ | ⟨-, hnone⟩
        · obtain rfl : process = found := Option.some.inj (hprocess.symm.trans hfound)
          rw [← hcode, hsome]
        · have hnone' := (hnone process hprocess).2
          rw [hcode] at hnone'
          cases hnone'
      · rintro code ⟨⟩
        exact ⟨(h.mapped key process hprocess).1, .inl ⟨process, hprocess, hcode⟩⟩

/-- A code that was answered for a job whose end the map does not know is in the exit file, and the
daemon did not start the job itself. -/
theorem Core.file_of_answered {key : Key} {code : Int32} (h : w.Core names keys)
    (hopen : ∀ process, w.processes key = some process → process.exitCode = none)
    (hanswered : w.Answered key code) :
    readExitCode (w.world.files (names.exitFile key)) = some code ∧
      ∀ process, w.processes key = some process → process.child = none := by
  rcases (h.answered key code hanswered).2 with ⟨process, hprocess, hsome⟩ | ⟨hread, hfound⟩
  · rw [hopen process hprocess] at hsome
    cases hsome
  · exact ⟨hread, fun process hprocess => (hfound process hprocess).1⟩

/-- No code was answered for a job that is neither in the map nor has an exit file. -/
theorem Core.not_answered {key : Key} (h : w.Core names keys) (hnone : w.processes key = none)
    (hfile : w.world.files (names.exitFile key) = none) (code : Int32) :
    ¬ w.Answered key code := by
  intro hanswered
  have hopen : ∀ process, w.processes key = some process → process.exitCode = none :=
    fun process hprocess => by rw [hnone] at hprocess; cases hprocess
  obtain ⟨hread, -⟩ := h.file_of_answered hopen hanswered
  rw [hfile] at hread
  cases hread

/-- A call that finds nothing: the job was never started and no code was ever answered. -/
theorem Core.unknown {key : Key} (h : w.Core names keys) (op : Op) (hkey : key ∈ keys)
    (hnone : w.processes key = none) (hfile : w.world.files (names.exitFile key) = none)
    (hon : w.OnFile names key) : (w.unknown op key).Inv names keys := by
  cases op with
  | launch =>
    exact ⟨⟨h.scopes, h.inKeys, h.scope, h.nodup, h.found, h.mapped, h.answered, h.stable⟩,
      hkey, hnone, hfile, fun hmem => hon hmem hfile⟩
  | kill => exact h.done
  | poll =>
    refine (h.answer ?_ ?_).done
    · exact fun code hanswered => absurd hanswered (h.not_answered hnone hfile code)
    · rintro code ⟨⟩

theorem findPid_eq_none {pids : List ℕ} {exitFile : Option Int32}
    (h : findPid pids exitFile = none) : pids = [] ∧ exitFile = none := by
  by_contra hnot
  rw [findPid, if_neg hnot] at h
  cases h

/-- A scope without processes belongs to no job that needs it to be found. -/
theorem Core.onFile_of_procs {key : Key} (h : w.Core names keys) (hnone : w.processes key = none)
    (hprocs : w.world.procs names (names.unit key) = []) : w.OnFile names key := by
  intro hmem hfile
  obtain ⟨start, hstart, rfl⟩ := List.mem_map.1 hmem
  obtain ⟨scope, hscope, -, hsame⟩ := h.scope start hstart
  have hempty : scope.procs = [] := by
    have hall := List.flatMap_eq_nil_iff.1 hprocs start hstart
    simpa [hscope] using hall
  rw [hsame] at hfile
  rcases h.found start hstart scope hscope hnone with hne | hne
  · exact hne hempty
  · exact hne hfile

theorem Core.withCall (h : w.Core names keys) (call : Call) :
    Core names keys { w with call := call } :=
  ⟨h.scopes, h.inKeys, h.scope, h.nodup, h.found, h.mapped, h.answered, h.stable⟩

/-- The looks of a call. -/
theorem Inv.look (h : w.Inv names keys) (hst : w.look names = some w') : w'.Inv names keys := by
  have hcall := h.call
  unfold Worker.look at hst
  split at hst
  case h_1 => cases hst
  case h_2 => cases hst
  case h_3 op key heq =>
    cases hst
    rw [heq] at hcall
    obtain ⟨hkey, hnone⟩ := hcall
    exact ⟨h.core.withCall _, hkey, hnone, h.core.onFile_of_procs hnone⟩
  case h_4 op key shown heq =>
    cases hst
    rw [heq] at hcall
    obtain ⟨hkey, hnone, hon⟩ := hcall
    refine ⟨h.core.withCall _, hkey, hnone, fun hnil => ?_⟩
    by_cases hshown : shown = []
    · exact hon hshown
    · rw [scopePids, if_neg hshown] at hnil
      exact h.core.onFile_of_procs hnone hnil
  case h_5 op key pids heq =>
    rw [heq] at hcall
    obtain ⟨hkey, hnone, hon⟩ := hcall
    split at hst
    case h_1 hostPid _ =>
      cases hst
      have hinsert : (w.insert key ⟨hostPid, none, true, none⟩).Core names keys := by
        refine h.core.insert hkey rfl fun code hanswered => ?_
        have hopen : ∀ process, w.processes key = some process → process.exitCode = none :=
          fun process hprocess => by rw [hnone] at hprocess; cases hprocess
        exact .inr ⟨(h.core.file_of_answered hopen hanswered).1, rfl, rfl⟩
      exact hinsert.known op (Function.update_self ..)
    case h_2 hfind =>
      cases hst
      obtain ⟨hnil, hfile⟩ := findPid_eq_none hfind
      exact h.core.unknown op hkey hnone hfile (hon hnil)
  case h_6 key answers heq =>
    rw [heq] at hcall
    obtain ⟨process, hprocess, hcode⟩ := hcall
    rw [hprocess, Option.bind_some, if_pos (h.core.mapped key process hprocess).2] at hst
    cases hst
    split_ifs with halive
    · -- a child of this daemon: nothing was answered for it before
      refine h.core.finish hprocess answers fun code hanswered => ?_
      have hopen : ∀ found, w.processes key = some found → found.exitCode = none :=
        fun found hfound => Option.some.inj (hprocess.symm.trans hfound) ▸ hcode
      obtain ⟨-, hchild⟩ := h.core.file_of_answered hopen hanswered
      rw [hchild process hprocess] at halive
      cases halive
    · exact ⟨h.core.withCall _, process, hprocess, hcode⟩
  case h_7 key answers heq =>
    rw [heq] at hcall
    obtain ⟨process, hprocess, hcode⟩ := hcall
    rw [hprocess, Option.map_some] at hst
    have honFile : ∀ code, w.Answered key code →
        readExitCode (w.world.files (names.exitFile key)) = some code := by
      intro code hanswered
      have hopen : ∀ found, w.processes key = some found → found.exitCode = none :=
        fun found hfound => Option.some.inj (hprocess.symm.trans hfound) ▸ hcode
      exact (h.core.file_of_answered hopen hanswered).1
    split at hst
    case h_1 exitCode hread =>
      cases hst
      refine h.core.finish hprocess answers fun code hanswered => ?_
      rw [Option.some.inj (hread.symm.trans (honFile code hanswered))]
    case h_2 hread =>
      cases hst
      refine ⟨h.core.withCall _, ⟨process, hprocess, hcode⟩, fun code hanswered => ?_⟩
      exact absurd (hread.symm.trans (honFile code hanswered)) (Option.some_ne_none code).symm
  case h_8 key answers heq =>
    rw [heq] at hcall
    obtain ⟨⟨process, hprocess, hcode⟩, hnot⟩ := hcall
    rw [hprocess, Option.map_some] at hst
    cases hst
    split_ifs
    · exact h.core.finish hprocess answers fun code hanswered => absurd hanswered (hnot code)
    · exact ⟨h.core.withCall _, ⟨process, hprocess, hcode⟩, hnot⟩
  case h_9 key answers heq =>
    cases hst
    rw [heq] at hcall
    exact ⟨h.core.withCall _, hcall⟩
  case h_10 key answers shown heq =>
    rw [heq] at hcall
    obtain ⟨⟨process, hprocess, hcode⟩, hnot⟩ := hcall
    rw [hprocess, Option.map_some] at hst
    cases hst
    exact h.core.finish hprocess answers fun code hanswered => absurd hanswered (hnot code)

/-- `spawn` starts a job that was never started and has no exit code on file. -/
theorem Core.spawn {key : Key} (h : w.Core names keys) (pid place : ℕ) (hkey : key ∈ keys)
    (hnone : w.processes key = none) (hfile : w.world.files (names.exitFile key) = none)
    (hnot : key ∉ w.world.starts.map Start.key) :
    Core names keys ({ w with world := w.world.spawn key pid w.scopes }.insert key
      ⟨pid, some place, w.scopes, none⟩) := by
  have hmem : ∀ {start}, start ∈ (w.world.spawn key pid w.scopes).starts →
      start ∈ w.world.starts ∨ start = ⟨key, some (.spawned pid)⟩ := by
    intro start hstart
    refine (List.mem_append.1 hstart).imp_right fun hnew => ?_
    rw [h.scopes, if_pos rfl] at hnew
    exact List.mem_singleton.1 hnew
  refine ⟨h.scopes, ?_, ?_, ?_, ?_, ?_, ?_, h.stable⟩
  · intro start hstart
    rcases hmem hstart with hold | rfl
    · exact h.inKeys start hold
    · exact hkey
  · intro start hstart
    rcases hmem hstart with hold | rfl
    · exact h.scope start hold
    · exact ⟨.spawned pid, rfl, .spawned pid, hfile⟩
  · have hmap :
        (w.world.spawn key pid w.scopes).starts.map Start.key =
          w.world.starts.map Start.key ++ [key] :=
      List.map_append ..
    show ((w.world.spawn key pid w.scopes).starts.map Start.key).Nodup
    rw [hmap]
    exact List.nodup_append'.2 ⟨h.nodup, List.nodup_singleton key, by simpa using hnot⟩
  · intro start hstart scope hscope hmissing
    rcases hmem hstart with hold | rfl
    · refine h.found start hold scope hscope ?_
      have hne : start.key ≠ key := by
        rintro rfl
        exact hnot (List.mem_map_of_mem hold)
      simpa [Worker.insert, hne] using hmissing
    · simp [Worker.insert] at hmissing
  · intro other found hfound
    by_cases heq : other = key
    · subst heq
      obtain rfl : ⟨pid, some place, w.scopes, none⟩ = found := by
        simpa [Worker.insert] using hfound
      exact ⟨hkey, h.scopes⟩
    · exact h.mapped other found (by simpa [Worker.insert, heq] using hfound)
  · intro other code hanswered
    obtain ⟨hother, hknows⟩ := h.answered other code hanswered
    refine ⟨hother, ?_⟩
    by_cases heq : other = key
    · subst heq
      exact absurd hanswered (h.not_answered hnone hfile code)
    · simpa [Knows, Worker.insert, heq, World.spawn] using hknows

theorem Inv.step {event : WorkerEvent} (h : w.Inv names keys) (hapart : names.Apart keys)
    (hst : w.perform names event = some w') (hsafe : w.Safe names keys event) :
    w'.Inv names keys := by
  cases event with
  | change place change =>
    obtain ⟨world', hworld, rfl⟩ := Option.map_eq_some_iff.1 hst
    exact h.change hapart hworld hsafe
  | call op key =>
    obtain ⟨-, hst⟩ := Option.ite_none_left_eq_some.1 hst
    cases hprocess : w.processes key with
    | some process =>
      rw [hprocess] at hst
      cases hst
      exact h.core.known op hprocess
    | none =>
      rw [hprocess] at hst
      dsimp only at hst
      rw [if_pos h.core.scopes] at hst
      cases hst
      exact ⟨h.core.withCall _, hsafe, hprocess⟩
  | running key =>
    obtain ⟨-, hst⟩ := Option.ite_none_left_eq_some.1 hst
    obtain ⟨process, hprocess, hst⟩ := Option.bind_eq_some_iff.1 hst
    obtain ⟨hcode, hst⟩ := Option.ite_none_right_eq_some.1 hst
    cases hst
    exact ⟨h.core.withCall _, process, hprocess, hcode⟩
  | look => exact h.look hst
  | waited waited =>
    -- every job has a scope, and `waitpid` alone is not asked
    cases heq : w.call with
    | wait key answers =>
      rw [perform, heq] at hst
      obtain ⟨process, hprocess, hst⟩ := Option.bind_eq_some_iff.1 hst
      rw [if_pos (h.core.mapped key process hprocess).2] at hst
      cases hst
    | _ => rw [perform, heq] at hst; cases hst
  | spawn pid =>
    have hcall := h.call
    cases heq : w.call with
    | spawn key =>
      rw [perform, heq] at hst
      rw [heq] at hcall
      cases hst
      obtain ⟨hkey, hnone, hfile, hnot⟩ := hcall
      exact (h.core.spawn pid w.world.starts.length hkey hnone hfile hnot).done
    | _ => rw [perform, heq] at hst; cases hst
  | launchFails =>
    cases heq : w.call with
    | spawn key =>
      rw [perform, heq] at hst
      cases hst
      exact h.core.done
    | _ => rw [perform, heq] at hst; cases hst
  | restart scopes =>
    cases hst
    -- what the map is lost with, the scopes and the exit files still tell
    obtain ⟨hscopes, hfound, hcodes⟩ := hsafe
    refine ⟨⟨hscopes, h.core.inKeys, h.core.scope, h.core.nodup, ?_, ?_, ?_, h.core.stable⟩,
      trivial⟩
    · intro start hstart scope hscope _
      obtain ⟨same, hsame, -, hfile⟩ := h.core.scope start hstart
      obtain rfl := Option.some.inj (hscope.symm.trans hsame)
      rw [← hfile]
      refine (hfound start hstart).imp_left fun ⟨other, hother, hprocs⟩ => ?_
      obtain rfl := Option.some.inj (hscope.symm.trans hother)
      exact hprocs
    · intro key process hprocess
      cases hprocess
    · intro key code hanswered
      refine ⟨(h.core.answered key code hanswered).1, .inr ⟨hcodes key code hanswered, ?_⟩⟩
      intro process hprocess
      cases hprocess

end Worker

/-- **A worker starts a job once and keeps to its answers**, as long as the jobs it is asked about
have scopes and exit files of their own, the daemon restarts only while every started job has a
process in its scope or its exit code on file and every answered code is the one on file, and no
job that a restarted daemon has not been asked about ends without an exit code. -/
theorem worker_launchesOnce {w₀ w : Worker} (hapart : names.Apart keys) (hfresh : w₀.Fresh)
    (hrun : ((worker names).guard (Worker.Safe names keys)).Reach w₀ w) :
    w.AtMostOneStart ∧ w.StableAnswers := by
  have hinv : w.Inv names keys := hrun.invariant (I := Worker.Inv names keys) hfresh.inv
    fun _ _ _ _ hinv hst => hinv.step hapart hst.2 hst.1
  exact ⟨hinv.core.nodup, hinv.core.stable⟩

end

/-! ### A job that ends without an exit code -/

namespace Worker

/-- Nothing was started and nothing is on file. -/
def fresh : Worker := ⟨true, ⟨[], fun _ => none⟩, fun _ => none, .idle, []⟩

theorem fresh_fresh : fresh.Fresh := ⟨rfl, rfl, fun _ => rfl, rfl, rfl⟩

end Worker

/-- The first job of a run. -/
def firstKey : Key := ("r", "a")

/-- It is launched and its scope is set up. -/
def launched : List WorkerEvent :=
  [.call .launch firstKey, .look, .look, .look, .spawn 5, .change 0 .setUp]

/-- A daemon that restarts while the job runs finds it again at the next Poll, and the job was
started once. -/
theorem launched_startedOnce : ∃ w : Worker, w.world.starts.map Start.key = [firstKey] ∧
    w.answers = [(firstKey, .polled none)] ∧ w.AtMostOneStart ∧ w.StableAnswers := by
  let names := jobNames [] "/root"
  obtain ⟨up, hup, again, hagain, w, hw, hrunning, hnone, hstarts, hanswers⟩ :
      ∃ up, LTS.performs (Worker.perform names) .fresh launched = some up ∧
        ∃ again, up.perform names (.restart true) = some again ∧
          ∃ w, LTS.performs (Worker.perform names) again [.call .poll firstKey, .look, .look, .look,
            .look, .look, .look, .call .launch firstKey] = some w ∧
            up.world.starts = [⟨firstKey, some ⟨5, .running, none, [5], none⟩⟩] ∧
            up.answers = [] ∧
            w.world.starts.map Start.key = [firstKey] ∧
            w.answers = [(firstKey, .polled none)] :=
    ⟨_, rfl, _, rfl, _, rfl, rfl, rfl, rfl, rfl⟩
  have hapart : names.Apart {firstKey} := by
    rintro key rfl other rfl hne
    exact absurd rfl hne
  have hfirst : ((worker names).guard (Worker.Safe names {firstKey})).Reach Worker.fresh up := by
    refine .of_performs hup fun w event hmem => ?_
    simp only [launched, List.mem_cons, List.not_mem_nil, or_false] at hmem
    rcases hmem with rfl | rfl | rfl | rfl | rfl | rfl
    all_goals first | exact rfl | exact trivial | rintro start scope pid - - ⟨⟩
  have hrestart : ((worker names).guard (Worker.Safe names {firstKey})).step up (.restart true)
      again := by
    refine ⟨⟨rfl, fun start hstart => ?_, fun key code hanswered => ?_⟩, hagain⟩
    · rw [hrunning, List.mem_singleton] at hstart
      subst hstart
      exact .inl ⟨_, rfl, List.cons_ne_nil 5 []⟩
    · rw [hnone] at hanswered
      cases hanswered
  have hlast : ((worker names).guard (Worker.Safe names {firstKey})).Reach again w := by
    refine .of_performs hw fun w event hmem => ?_
    simp only [List.mem_cons, List.not_mem_nil, or_false] at hmem
    rcases hmem with rfl | rfl | rfl | rfl | rfl | rfl | rfl | rfl
    all_goals first | exact rfl | exact trivial
  exact ⟨w, hstarts, hanswers,
    worker_launchesOnce hapart Worker.fresh_fresh ((hfirst.tail hrestart).trans hlast)⟩

/-- It is killed and a Poll is answered -1; the daemon restarts, and then a Poll does not find the
job and a Launch starts it again. -/
def killedAndForgotten : List WorkerEvent :=
  launched ++ [.change 0 (.dies 5), .call .poll firstKey, .look, .look, .look, .look, .look,
    .restart true, .call .poll firstKey, .look, .look, .look,
    .call .launch firstKey, .look, .look, .look, .spawn 6]

theorem killed_startedTwice : ∃ w, (worker (jobNames [] "/root")).Reach Worker.fresh w ∧
    w.world.starts.map Start.key = [firstKey, firstKey] ∧
    w.answers = [(firstKey, .polled (some (-1))), (firstKey, .unknownExecution)] ∧
    ¬ w.AtMostOneStart ∧ ¬ w.StableAnswers := by
  have hrun : (LTS.performs (Worker.perform (jobNames [] "/root")) .fresh killedAndForgotten).map
      (fun w => (w.world.starts.map Start.key, w.answers)) = some ([firstKey, firstKey],
        [(firstKey, .polled (some (-1))), (firstKey, .unknownExecution)]) := by
    decide +kernel
  obtain ⟨w, hperforms, hw⟩ := Option.map_eq_some_iff.1 hrun
  obtain ⟨hstarts, hanswers⟩ := Prod.mk.inj hw
  have hreach : (worker (jobNames [] "/root")).Reach .fresh w :=
    (LTS.Reach.of_performs (G := fun _ _ => True) hperforms fun _ _ _ => trivial).of_guard
  refine ⟨w, hreach, hstarts, hanswers, ?_, ?_⟩
  · rw [Worker.AtMostOneStart, hstarts]
    decide
  · rw [Worker.StableAnswers, hanswers]
    intro h
    have hlater := (List.pairwise_cons.1 h).1 _ (List.mem_singleton_self _) rfl (-1) rfl
    cases hlater

end Roster
