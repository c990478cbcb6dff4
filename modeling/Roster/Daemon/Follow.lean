import Roster.Daemon.Rows
import Roster.Scheduler.JobStep

/-!
# How the store follows the scheduler

A section changes jobs in memory and leaves their keys to a flush, which writes them one by one; so
at most the jobs of the flush under way differ from their rows.  `Follows` says how far the rows of
a run may lag: a job never starts before the rows of what it depends on say Succeeded, and is never
skipped before one of them says that it ended badly.  Whatever moment the controller stops at, the
rows are in order (`Follows.rowsOk`).
-/

namespace Roster

/-! ### What a section leaves to write -/

/-- What the flush under way has still to write. -/
def Phase.toWrite : Phase → List JobKey
  | .flushing toWrite _ => toWrite
  | _ => []

/-- What one step leaves to the flush: the store is as it was, and every job outside the flush is in
its state; jobs change only when no flush is under way. -/
structure LeftToFlush (s s' : SchedulerState) : Prop where
  store : s'.daemon.store = s.daemon.store
  kept : ∀ key, key ∉ s'.phase.toWrite →
    (findJob s'.daemon.runs key).map JobInstance.state =
      (findJob s.daemon.runs key).map JobInstance.state
  pending : s.phase.toWrite = [] ∨ (s'.phase.toWrite = s.phase.toWrite ∧ ∀ key,
    (findJob s'.daemon.runs key).map JobInstance.state =
      (findJob s.daemon.runs key).map JobInstance.state)

/-- Applying results one after the other leaves every changed job to the flush. -/
theorem foldlM_toWrite {α : Type} {apply : Applied → α → Exec Applied} (key : α → JobKey)
    {results : List α}
    (hkept : ∀ acc acc' a, apply acc a = .ok acc' →
      KeptExcept [key a] acc.daemon.runs acc'.daemon.runs)
    (hwrite : ∀ acc acc' a, apply acc a = .ok acc' → acc'.daemon.store = acc.daemon.store ∧
      acc.toWrite ⊆ acc'.toWrite ∧
      (acc'.daemon.runs = acc.daemon.runs ∨ key a ∈ acc'.toWrite))
    {daemon : DaemonState} {applied : Applied}
    (h : results.foldlM apply ⟨daemon, []⟩ = .ok applied) :
    applied.daemon.store = daemon.store ∧ ∀ k, k ∉ applied.toWrite →
      findJob applied.daemon.runs k = findJob daemon.runs k := by
  refine Exec.foldlM_invariant (P := fun mid : Applied => mid.daemon.store = daemon.store ∧
    ∀ k, k ∉ mid.toWrite → findJob mid.daemon.runs k = findJob daemon.runs k) ?_ h
    ⟨rfl, fun _ _ => rfl⟩
  rintro mid a mid' - ⟨hstore, hsame⟩ hok
  obtain ⟨hstore', hsub, hwhy⟩ := hwrite mid mid' a hok
  refine ⟨hstore'.trans hstore, fun k hk => ?_⟩
  rw [← hsame k fun hmem => hk (hsub hmem)]
  rcases hwhy with hruns | hmem
  · rw [hruns]
  · exact (hkept mid mid' a hok).kept k fun heq => hk (List.mem_singleton.1 heq ▸ hmem)

theorem applyLaunch_toWrite {cfg : Config} {now : DateTime} {acc acc' : Applied}
    {outcome : LaunchOutcome} (h : applyLaunch cfg now acc outcome = .ok acc') :
    acc'.daemon.store = acc.daemon.store ∧ acc.toWrite ⊆ acc'.toWrite ∧
      (acc'.daemon.runs = acc.daemon.runs ∨ outcome.key ∈ acc'.toWrite) := by
  cases applyLaunch_eq_ok h with
  | returned _ _ => exact ⟨rfl, List.Subset.refl _, .inl rfl⟩
  | started _ _ _ _ => exact ⟨rfl, List.subset_append_left _ _, .inr (by simp)⟩
  | turnedDown _ _ _ _ _ => exact ⟨rfl, List.subset_append_left _ _, .inr (by simp)⟩
  | failed _ _ _ _ _ => exact ⟨rfl, List.subset_append_left _ _, .inr (by simp)⟩

theorem applyPoll_toWrite {now : DateTime} {acc acc' : Applied} {entry : PollEntry}
    (h : applyPoll now acc entry = .ok acc') :
    acc'.daemon.store = acc.daemon.store ∧ acc.toWrite ⊆ acc'.toWrite ∧
      (acc'.daemon.runs = acc.daemon.runs ∨ entry.key ∈ acc'.toWrite) := by
  cases applyPoll_eq_ok h with
  | same _ => exact ⟨rfl, List.Subset.refl _, .inl rfl⟩
  | failed _ _ _ _ => exact ⟨rfl, List.subset_append_left _ _, .inr (by simp)⟩
  | exited _ _ _ => exact ⟨rfl, List.subset_append_left _ _, .inr (by simp)⟩

/-- A section that updates some jobs of each run leaves them to the flush. -/
theorem findJob_updateAll {runs : List WorkflowRun} {ids : WorkflowRun → List String}
    {f : JobInstance → JobInstance} (hid : ∀ job, (f job).jobId = job.jobId)
    (hf : ∀ job, f (f job) = f job) {key : JobKey}
    (hkey : key ∉ runs.flatMap fun run => (ids run).map fun jobId => (run.runId, jobId)) :
    findJob (runs.map fun run => run.updateAll (ids run) f) key = findJob runs key := by
  rw [findJob_map fun _ => by rfl, findJob]
  cases hrun : findRun runs key.1 with
  | none => rfl
  | some run =>
    rw [Option.bind_some, Option.bind_some, WorkflowRun.job?_updateAll hid hf]
    have hnot : key.2 ∉ ids run := fun hmem => hkey <| List.mem_flatMap.2
      ⟨run, Keyed.mem_of_get? hrun, List.mem_map.2 ⟨key.2, hmem,
        Prod.ext (findRun_runId hrun) rfl⟩⟩
    simp only [hnot, if_false, Option.map_id']

/-- A silent step leaves its changes to the flush that follows. -/
theorem Step.leftToFlush {cfg : Config} {s s' : SchedulerState} {label : Label} (hinv : KeysInv s)
    (h : Step cfg s label s') (hsilent : label.Silent) : LeftToFlush s s' := by
  cases h with
  | submit _ _ _ => exact hsilent.elim
  | flushed _ => exact hsilent.elim
  | cancel runId =>
    -- a Cancel marks jobs and leaves their states
    have hstate : ∀ key, (findJob (cancelRun s.daemon.runs runId) key).map JobInstance.state =
        (findJob s.daemon.runs key).map JobInstance.state := by
      intro key
      rw [findJob_cancelRun]
      split
      · rw [Option.map_map]
        exact congrArg (Option.map · _) (funext fun job => job.markCancelling_same.2.2.1)
      · rfl
    exact ⟨rfl, fun key _ => hstate key, .inr ⟨rfl, hstate⟩⟩
  | @reorderRuns _ runs hperm =>
    have hsame : ∀ key, findJob runs key = findJob s.daemon.runs key := fun key => by
      rw [findJob, findRun, Keyed.get?_perm hperm hinv.keys.runIds]; rfl
    exact ⟨rfl, fun key _ => by rw [hsame], .inr ⟨rfl, fun key => by rw [hsame]⟩⟩
  | reorderJobs hrun hperm =>
    have hsame := findJob_reorderJobs hrun hperm (hinv.jobIds hrun)
    exact ⟨rfl, fun key _ => by rw [hsame], .inr ⟨rfl, fun key => by rw [hsame]⟩⟩
  | gpusBlocked _ hok =>
    obtain ⟨_, _, rfl, -⟩ := blockGpus_eq_ok hok
    exact ⟨rfl, fun _ _ => rfl, .inl rfl⟩
  -- jobs that are queued or skipped are written by the flush that follows
  | @tick daemon _ =>
    refine ⟨rfl, fun key hkey => congrArg _ ?_, .inl rfl⟩
    exact findJob_updateAll (f := JobInstance.queue) (fun _ => rfl) (fun _ => rfl) hkey
  | @cascade daemon _ now =>
    refine ⟨rfl, fun key hkey => congrArg _ ?_, .inl rfl⟩
    exact findJob_updateAll (f := JobInstance.skip now) (fun _ => rfl) (fun _ => rfl) hkey
  | flushDone next => exact ⟨rfl, fun _ _ => rfl, .inl rfl⟩
  | @launchesApplied _ _ outcomes now applied hok =>
    obtain ⟨hstore, hkept⟩ := foldlM_toWrite LaunchOutcome.key
      (fun _ _ _ => applyLaunch_kept) (fun _ _ _ => applyLaunch_toWrite) hok
    exact ⟨hstore, fun key hkey => by rw [hkept key hkey], .inl rfl⟩
  | pollsApplied hok =>
    obtain ⟨hstore, hkept⟩ := foldlM_toWrite PollEntry.key
      (fun _ _ _ => applyPoll_kept) (fun _ _ _ => applyPoll_toWrite) hok
    exact ⟨hstore, fun key hkey => by rw [hkept key hkey], .inl rfl⟩
  | _ => exact ⟨rfl, fun _ _ => rfl, .inl rfl⟩

/-! ### How far the rows may lag -/

/-- What a row may say of a job that is in a state: the job is at most one edge ahead. -/
def Behind (stored state : JobState) : Prop := state = stored ∨ Edge stored state

theorem Behind.terminal {stored state : JobState} (h : Behind stored state)
    (hterm : stored.isTerminal = true) : stored = state := by
  rcases h with rfl | hedge
  · rfl
  · cases hedge <;> cases hterm

theorem Behind.started {stored state : JobState} (h : Behind stored state)
    (hstarted : stored.hasStarted = true) : state.hasStarted = true := by
  rcases h with rfl | hedge
  · exact hstarted
  · cases hedge <;> first | rfl | cases hstarted

theorem Behind.early {stored state : JobState} (h : Behind stored state)
    (hearly : state = .pending ∨ state = .queued) : stored = .pending ∨ stored = .queued := by
  rcases h with rfl | hedge
  · exact hearly
  · rcases hearly with rfl | rfl <;> cases hedge
    exact .inl rfl

/-- The rows of a run that is in memory: only the jobs a flush has still to write may differ from
them, and whatever a job waited for is written. -/
structure Follows (store : RunStore) (toWrite : List JobKey) (run : WorkflowRun) : Prop where
  known : ∀ jobId row, store.row? (run.runId, jobId) = some row → jobId ∈ run.spec.ids
  written : ∀ id job, run.job? id = some job → (run.runId, id) ∉ toWrite →
    store.stateOf (run.runId, id) = job.state
  behind : ∀ id job, run.job? id = some job → Behind (store.stateOf (run.runId, id)) job.state
  started : ∀ id job, run.job? id = some job → job.state.hasStarted = true →
    ∀ dep ∈ job.spec.dependsOn, store.stateOf (run.runId, dep) = .succeeded
  skipped : ∀ id job, run.job? id = some job → job.state = .skipped →
    ∃ dep ∈ job.spec.dependsOn, (store.stateOf (run.runId, dep)).isBad = true

/-- The instance of a job of the document. -/
theorem RunInv.job?_of_mem {run : WorkflowRun} (hinv : RunInv run) (haccepts : Dag.Accepts run.spec)
    {jobSpec : JobSpec} (hmem : jobSpec ∈ run.spec.jobs) :
    ∃ job, run.job? jobSpec.id = some job ∧ job.spec = jobSpec := by
  obtain ⟨job, hjob⟩ := hinv.total jobSpec.id (List.mem_map_of_mem hmem)
  obtain ⟨hspec, hid⟩ := hinv.job _ job hjob
  refine ⟨job, hjob, ?_⟩
  exact List.inj_on_of_nodup_map (Dag.exists_topological haccepts).1 hspec hmem hid

/-- Rows that follow a run are in order. -/
theorem Follows.rowsOk {store : RunStore} {toWrite : List JobKey} {run : WorkflowRun}
    (h : Follows store toWrite run) (hinv : RunInv run) (haccepts : Dag.Accepts run.spec) :
    RowsOk store run.runId run.spec := by
  refine ⟨h.known, fun jobSpec hmem hstarted dep hdep => ?_, fun jobSpec hmem hskipped => ?_⟩
  · obtain ⟨job, hjob, rfl⟩ := hinv.job?_of_mem haccepts hmem
    exact h.started _ job hjob ((h.behind _ job hjob).started hstarted) dep hdep
  · obtain ⟨job, hjob, rfl⟩ := hinv.job?_of_mem haccepts hmem
    have hstate := (h.behind _ job hjob).terminal (by rw [hskipped]; rfl)
    exact h.skipped _ job hjob (hstate.symm.trans hskipped)

/-- The rows keep following while the jobs of the run move and the store stays. -/
theorem Follows.moved {store : RunStore} {toWrite toWrite' : List JobKey} {run run' : WorkflowRun}
    (h : Follows store toWrite run) (hinv : RunInv run)
    (hmoved : RunMoved ScheduleOutcome run run')
    (hkept : ∀ id, (run.runId, id) ∉ toWrite' → run'.stateOf id = run.stateOf id)
    (hpending : toWrite = [] ∨ (toWrite' = toWrite ∧ ∀ id, run'.stateOf id = run.stateOf id)) :
    Follows store toWrite' run' := by
  -- the job a job of `run'` comes from
  have hfrom : ∀ id job', run'.job? id = some job' → ∃ job, run.job? id = some job ∧
      job'.spec = job.spec ∧ StateMove ScheduleOutcome run job job'.state := by
    intro id job' hjob'
    rcases hmoved.job id with ⟨-, hnone⟩ | ⟨job, job'', hjob, hjob'', hspec, hmove⟩
    · rw [hnone] at hjob'; cases hjob'
    · obtain rfl := Option.some.inj (hjob''.symm.trans hjob')
      exact ⟨job, hjob, hspec, hmove⟩
  have hstates : ∀ {id job job'}, run.job? id = some job → run'.job? id = some job' →
      run'.stateOf id = run.stateOf id → job'.state = job.state := by
    intro id job job' hjob hjob' hsame
    simpa [WorkflowRun.stateOf, hjob, hjob'] using hsame
  -- what a job waited for was written, as no flush is under way when a job moves
  have hdep : ∀ {id job job'}, run.job? id = some job → run'.job? id = some job' →
      job'.state ≠ job.state → ∀ dep state, run.stateOf dep = some state →
      store.stateOf (run.runId, dep) = state := by
    intro id job job' hjob hjob' hne dep state hstate
    obtain ⟨depJob, hdepJob, rfl⟩ := Option.map_eq_some_iff.1 hstate
    refine h.written dep depJob hdepJob ?_
    rcases hpending with hnil | ⟨-, hsame⟩
    · rw [hnil]; exact List.not_mem_nil
    · exact absurd (hstates hjob hjob' (hsame id)) hne
  refine ⟨?_, fun id job' hjob' hnot => ?_, fun id job' hjob' => ?_,
    fun id job' hjob' hstarted => ?_, fun id job' hjob' hskipped => ?_⟩
  · rw [hmoved.runId, hmoved.spec]; exact h.known
  all_goals
    obtain ⟨job, hjob, hspec, hmove⟩ := hfrom id job' hjob'
    have hedge := hmove.edge (hinv.started id job hjob)
    rw [hmoved.runId]
  · rw [hmoved.runId] at hnot
    have hsame := hstates hjob hjob' (hkept id hnot)
    rw [hsame]
    refine h.written id job hjob ?_
    rcases hpending with hnil | ⟨htoWrite, -⟩
    · rw [hnil]; exact List.not_mem_nil
    · rwa [← htoWrite]
  · by_cases hsame : job'.state = job.state
    · rw [hsame]; exact h.behind id job hjob
    · -- no flush is under way, so the row said what the job was
      have hwas : store.stateOf (run.runId, id) = job.state :=
        hdep hjob hjob' hsame id _ (by rw [WorkflowRun.stateOf, hjob]; rfl)
      rw [hwas]
      exact hedge
  · rw [hspec]
    by_cases hsame : job'.state = job.state
    · exact h.started id job hjob (hsame ▸ hstarted)
    · cases hwas : job.state.hasStarted with
      | true => exact h.started id job hjob hwas
      | false =>
        intro dep hmem
        refine hdep hjob hjob' hsame dep _ ?_
        generalize job'.state = state' at hmove hstarted hsame
        cases hmove with
        | stay => exact absurd rfl hsame
        | queue _ hdeps => exact WorkflowRun.depsSucceeded_iff.1 hdeps dep hmem
        | skip _ _ => cases hstarted
        | outcome hout =>
          rcases hout.outcome.1 with hs | hs <;> rw [hs] at hwas <;> cases hwas
  · rw [hspec]
    by_cases hsame : job'.state = job.state
    · exact h.skipped id job hjob (hsame ▸ hskipped)
    · have hbad : run.depBad job = true := by
        rw [hskipped] at hmove
        generalize hs : JobState.skipped = state' at hmove
        cases hmove with
        | stay => exact absurd (hskipped.trans hs) hsame
        | queue _ _ => cases hs
        | skip _ hbad => exact hbad
        | outcome hout => subst hs; have := hout.outcome.2; cases this
      obtain ⟨dep, hmem, state, hstate, hst⟩ := WorkflowRun.depBad_iff.1 hbad
      exact ⟨dep, hmem, by rwa [hdep hjob hjob' hsame dep state hstate]⟩

/-- The rows keep following when the next job of the flush is written. -/
theorem Follows.flushed {store : RunStore} {key : JobKey} {toWrite : List JobKey}
    {run : WorkflowRun} (h : Follows store (key :: toWrite) run) {job : JobInstance}
    (hinv : RunInv run) (hjob : key.1 = run.runId → run.job? key.2 = some job)
    (hid : job.jobId = key.2) (node : Option String) :
    Follows (store.upsertJob key.1 job node) toWrite run := by
  have hwritten : ∀ id, (run.runId, id) = key → run.job? id = some job := by
    rintro id rfl
    exact hjob rfl
  have hstate : ∀ id, (store.upsertJob key.1 job node).stateOf (run.runId, id) =
      if (run.runId, id) = key then job.state else store.stateOf (run.runId, id) := by
    intro id
    rw [RunStore.stateOf_upsertJob, hid]
  -- what the row says of the written job is what is there, and what was terminal stays
  have hdep : ∀ dep, (store.stateOf (run.runId, dep)).isTerminal = true →
      (store.upsertJob key.1 job node).stateOf (run.runId, dep) =
        store.stateOf (run.runId, dep) := by
    intro dep hterm
    rw [hstate]
    split
    · next heq =>
      exact ((h.behind dep job (hwritten dep heq)).terminal hterm).symm
    · rfl
  refine ⟨fun jobId row hrow => ?_, fun id job' hjob' hnot => ?_, fun id job' hjob' => ?_,
    fun id job' hjob' hstarted dep hmem => ?_, fun id job' hjob' hskipped => ?_⟩
  · rw [RunStore.row?_upsertJob, hid] at hrow
    split at hrow
    · next heq =>
      obtain ⟨hspec, hspecId⟩ := hinv.job jobId job (hwritten jobId heq)
      exact List.mem_map.2 ⟨job.spec, hspec, hspecId⟩
    · exact h.known jobId row hrow
  · rw [hstate]
    split
    · next heq =>
      rw [Option.some.inj (hjob'.symm.trans (hwritten id heq))]
    · next hne => exact h.written id job' hjob' (by simp [hne, hnot])
  · rw [hstate]
    split
    · next heq =>
      rw [Option.some.inj (hjob'.symm.trans (hwritten id heq))]
      exact .inl rfl
    · exact h.behind id job' hjob'
  · have hdepOk := h.started id job' hjob' hstarted dep hmem
    rw [hdep dep (by rw [hdepOk]; rfl), hdepOk]
  · obtain ⟨dep, hmem, hbad⟩ := h.skipped id job' hjob' hskipped
    exact ⟨dep, hmem, by rwa [hdep dep (JobState.isTerminal_of_isBad hbad)]⟩

/-! ### The whole store -/

/-- What the store says while the controller runs. -/
structure Stored (s : SchedulerState) : Prop where
  runs : (s.daemon.store.runs.map RunRow.runId).Nodup
  jobs : (s.daemon.store.jobs.map JobRow.key).Nodup
  spec : ∀ id run, findRun s.daemon.runs id = some run → ∀ row ∈ s.daemon.store.runs,
    row.runId = id → row.spec = some run.spec
  follows : ∀ id run, findRun s.daemon.runs id = some run →
    Follows s.daemon.store s.phase.toWrite run
  rest : ∀ row ∈ s.daemon.store.runs, findRun s.daemon.runs row.runId = none →
    ∃ spec, row.spec = some spec ∧ Dag.Accepts spec ∧ RowsOk s.daemon.store row.runId spec

/-- Whatever moment the controller stops at, its runs can be rebuilt. -/
theorem Stored.recoverable {s : SchedulerState} (h : Stored s) (hinv : JobsInv s) :
    Recoverable s.daemon.store := by
  refine ⟨h.runs, h.jobs, fun row hrow => ?_⟩
  cases hrun : findRun s.daemon.runs row.runId with
  | none => exact h.rest row hrow hrun
  | some run =>
    obtain ⟨hrunInv, haccepts⟩ := hinv.run _ run hrun
    have hrows := (h.follows _ run hrun).rowsOk hrunInv haccepts
    rw [findRun_runId hrun] at hrows
    exact ⟨run.spec, h.spec _ run hrun row hrow rfl, haccepts, hrows⟩

/-- No row in the store is of this run. -/
def RunStore.Fresh (store : RunStore) (runId : String) : Prop :=
  (∀ row ∈ store.runs, row.runId ≠ runId) ∧ ∀ row ∈ store.jobs, row.runId ≠ runId

/-- Every write of a flush succeeds, and a new run gets an id that no row has. -/
def Label.StoreOk (store : RunStore) : Label → Prop
  | .flushed written _ => written = true
  | .submit runId _ _ _ _ _ => store.Fresh runId
  | _ => True

/-- A flush writes the job's row, if the write succeeds. -/
theorem flushTransition_store {cfg : Config} {daemon daemon' : DaemonState} {key : JobKey}
    {written : Bool} {emittedAt : ℕ}
    (h : flushTransition cfg daemon key written emittedAt = .ok daemon') :
    daemon'.store = daemon.store ∨
      ∃ job node, daemon'.store = daemon.store.upsertJob key.1 job node := by
  unfold flushTransition at h
  split at h
  · exact .inl (Except.ok.inj h ▸ rfl)
  split at h
  · exact .inl (Except.ok.inj h ▸ rfl)
  simp only [Exec.bind_eq_ok, Exec.pure_eq_ok] at h
  obtain ⟨node, -, rfl⟩ := h
  dsimp only
  split
  · exact .inr ⟨_, node, rfl⟩
  · exact .inl rfl

theorem flushTransition_written {cfg : Config} {daemon daemon' : DaemonState} {key : JobKey}
    {emittedAt : ℕ} (h : flushTransition cfg daemon key true emittedAt = .ok daemon') :
    daemon'.runs = daemon.runs ∧
      ((findJob daemon.runs key = none ∧ daemon'.store = daemon.store) ∨
        ∃ job node, findJob daemon.runs key = some job ∧
          daemon'.store = daemon.store.upsertJob key.1 job node) := by
  unfold flushTransition at h
  split at h
  · next hrun =>
    obtain rfl := Except.ok.inj h
    exact ⟨rfl, .inl ⟨by rw [findJob, hrun, Option.bind_none], rfl⟩⟩
  next run hrun =>
  split at h
  · next hjob =>
    obtain rfl := Except.ok.inj h
    exact ⟨rfl, .inl ⟨by rw [findJob, hrun, Option.bind_some, hjob], rfl⟩⟩
  next job hjob =>
    simp only [Exec.bind_eq_ok, Exec.pure_eq_ok] at h
    obtain ⟨node, -, rfl⟩ := h
    exact ⟨rfl, .inr ⟨job, node, findJob_eq_some.2 ⟨run, hrun, hjob⟩, rfl⟩⟩

/-- What `handle_submit` wrote of a run, whichever of its writes succeeded. -/
structure SubmitWritten (runId : String) (spec : WorkflowSpec) (runWritten : Bool)
    (store store' : RunStore) : Prop where
  runs : ∀ row ∈ store'.runs, row ∈ store.runs ∨
    (runWritten = true ∧ row.runId = runId ∧ row.spec = some spec)
  nodupRuns : (store.runs.map RunRow.runId).Nodup → (store'.runs.map RunRow.runId).Nodup
  nodupJobs : (store.jobs.map JobRow.key).Nodup → (store'.jobs.map JobRow.key).Nodup
  other : ∀ key, key.1 ≠ runId → store'.row? key = store.row? key
  known : ∀ jobId row, store'.row? (runId, jobId) = some row → jobId ∈ spec.ids
  pending : ∀ jobId, store'.stateOf (runId, jobId) = .pending

theorem SubmitWritten.upsertJob {runId : String} {spec : WorkflowSpec} {runWritten : Bool}
    {store store' : RunStore} (h : SubmitWritten runId spec runWritten store store')
    {job : JobInstance} (hid : job.jobId ∈ spec.ids) (hstate : job.state = .pending) :
    SubmitWritten runId spec runWritten store (store'.upsertJob runId job none) := by
  refine ⟨h.runs, h.nodupRuns, fun hnodup => Keyed.nodup_insert (h.nodupJobs hnodup),
    fun key hkey => ?_, fun jobId row hrow => ?_, fun jobId => ?_⟩
  · rw [RunStore.row?_upsertJob, if_neg fun heq => hkey (congrArg Prod.fst heq)]
    exact h.other key hkey
  · rw [RunStore.row?_upsertJob] at hrow
    split at hrow
    · next heq => rw [show jobId = job.jobId from congrArg Prod.snd heq]; exact hid
    · exact h.known jobId row hrow
  · rw [RunStore.stateOf_upsertJob]
    split
    · exact hstate
    · exact h.pending jobId

theorem SubmitWritten.run {store : RunStore} (run : WorkflowRun) (hfresh : store.Fresh run.runId)
    (runWritten : Bool) : SubmitWritten run.runId run.spec runWritten store
      (if runWritten then store.upsertRun run else store) := by
  have hrow : ∀ jobId, store.row? (run.runId, jobId) = none := fun jobId =>
    Keyed.get?_eq_none.2 fun row hrow heq => hfresh.2 row hrow (congrArg Prod.fst heq)
  have hknown : ∀ jobId row, store.row? (run.runId, jobId) = some row → jobId ∈ run.spec.ids := by
    intro jobId row hsome
    rw [hrow] at hsome
    cases hsome
  have hpending := fun jobId => RunStore.stateOf_of_none (hrow jobId)
  cases runWritten with
  | false => exact ⟨fun row hrow => .inl hrow, id, id, fun _ _ => rfl, hknown, hpending⟩
  | true =>
    refine ⟨fun row hmem => ?_, fun h => Keyed.nodup_insert h, id, fun _ _ => rfl, hknown, hpending⟩
    rw [if_pos rfl, RunStore.upsertRun,
      Keyed.insert_of_fresh (Keyed.get?_eq_none.2 hfresh.1), List.mem_append] at hmem
    refine hmem.imp_right fun hmem => ?_
    rw [List.mem_singleton.1 hmem]
    exact ⟨rfl, rfl, rfl⟩

theorem submit_written {daemon : DaemonState} {runId : String} {spec : WorkflowSpec}
    (haccepts : Dag.Accepts spec) (hfresh : daemon.store.Fresh runId) (now : DateTime)
    (runWritten : Bool) (jobWritten : String → Bool) :
    SubmitWritten runId spec runWritten daemon.store
      (submit daemon runId spec now runWritten jobWritten).store := by
  have hrun : SubmitWritten runId spec runWritten daemon.store _ :=
    .run (.new runId daemon.runCounter spec daemon.jobCounter now) hfresh runWritten
  refine List.foldlRecOn _ _ hrun fun store hstore job hmem => ?_
  split
  · have hinv := RunInv.new haccepts runId daemon.runCounter daemon.jobCounter now
    have hjob := Keyed.get?_of_mem hinv.nodup hmem
    obtain ⟨hspec, hid⟩ := hinv.job _ job hjob
    exact hstore.upsertJob (List.mem_map.2 ⟨job.spec, hspec, hid⟩)
      (WorkflowRun.job?_new haccepts hjob).1
  · exact hstore

/-- A run that was just submitted is followed by its rows. -/
theorem SubmitWritten.follows {runId : String} {spec : WorkflowSpec} {runWritten : Bool}
    {store store' : RunStore} (h : SubmitWritten runId spec runWritten store store')
    (haccepts : Dag.Accepts spec) (toWrite : List JobKey) (runSeq jobSeq : ℕ) (now : DateTime) :
    Follows store' toWrite (.new runId runSeq spec jobSeq now) := by
  have hpending : ∀ id job, (WorkflowRun.new runId runSeq spec jobSeq now).job? id = some job →
      job.state = .pending := fun id job hjob => (WorkflowRun.job?_new haccepts hjob).1
  refine ⟨h.known, fun id job hjob _ => ?_, fun id job hjob => ?_, fun id job hjob hst => ?_,
    fun id job hjob hst => ?_⟩
  · exact (h.pending id).trans (hpending id job hjob).symm
  · exact .inl ((hpending id job hjob).trans (h.pending id).symm)
  · rw [hpending id job hjob] at hst; cases hst
  · rw [hpending id job hjob] at hst; cases hst

/-- The rows of a run follow it as long as they stay. -/
theorem Follows.of_row? {store store' : RunStore} {toWrite : List JobKey} {run : WorkflowRun}
    (h : Follows store toWrite run)
    (hsame : ∀ jobId, store'.row? (run.runId, jobId) = store.row? (run.runId, jobId)) :
    Follows store' toWrite run := by
  have hstate : ∀ jobId, store'.stateOf (run.runId, jobId) = store.stateOf (run.runId, jobId) :=
    fun jobId => by rw [RunStore.stateOf, hsame, RunStore.stateOf]
  obtain ⟨hknown, hwritten, hbehind, hstarted, hskipped⟩ := h
  refine ⟨fun jobId row hrow => hknown jobId row (hsame jobId ▸ hrow), ?_, ?_, ?_, ?_⟩
  all_goals simp only [hstate]
  · exact hwritten
  · exact hbehind
  · exact hstarted
  · exact hskipped

/-- The flush has nothing to write of a job that is not there. -/
theorem Stored.dropped {daemon daemon' : DaemonState} {checks : GpuChecks} {key : JobKey}
    {toWrite : List JobKey} {next : AfterFlush}
    (h : Stored ⟨daemon, checks, .flushing (key :: toWrite) next⟩)
    (hruns : daemon'.runs = daemon.runs) (hstore : daemon'.store = daemon.store)
    (hnone : findJob daemon.runs key = none) :
    Stored ⟨daemon', checks, .flushing toWrite next⟩ := by
  obtain ⟨hrunIds, hkeys, hspec, hfollows, hrest⟩ := h
  dsimp only at hrunIds hkeys hspec hfollows hrest
  rw [← hruns] at hspec hfollows hrest
  rw [← hstore] at hrunIds hkeys hspec hfollows hrest
  refine ⟨hrunIds, hkeys, hspec, fun id run hrun => ?_, hrest⟩
  obtain ⟨hknown, hwritten, hbehind, hstarted, hskipped⟩ := hfollows id run hrun
  refine ⟨hknown, fun jobId job hjob hnot => hwritten jobId job hjob ?_, hbehind, hstarted,
    hskipped⟩
  rintro (_ | ⟨_, hmem⟩)
  · rw [hruns] at hrun
    rw [findRun_runId hrun] at hnone
    rw [findJob_eq_some.2 ⟨run, hrun, hjob⟩] at hnone
    cases hnone
  · exact hnot hmem

/-- The flush writes the row of a job. -/
theorem Stored.written {daemon daemon' : DaemonState} {checks : GpuChecks} {key : JobKey}
    {toWrite : List JobKey} {next : AfterFlush} {job : JobInstance} {node : Option String}
    (h : Stored ⟨daemon, checks, .flushing (key :: toWrite) next⟩)
    (hinv : JobsInv ⟨daemon, checks, .flushing (key :: toWrite) next⟩)
    (hruns : daemon'.runs = daemon.runs)
    (hstore : daemon'.store = daemon.store.upsertJob key.1 job node)
    (hjob : findJob daemon.runs key = some job) :
    Stored ⟨daemon', checks, .flushing toWrite next⟩ := by
  obtain ⟨run, hrun, hj, hrunInv⟩ := hinv.runOf hjob
  have hid := findJob_jobId hjob
  refine ⟨by dsimp only; rw [hstore]; exact h.runs, ?_, fun id run hrun row hrow => ?_,
    fun id run' hrun' => ?_, fun row hrow hnone => ?_⟩
  · dsimp only
    rw [hstore]
    exact Keyed.nodup_insert h.jobs
  · dsimp only at hrun hrow
    rw [hruns] at hrun
    rw [hstore] at hrow
    exact h.spec id run hrun row hrow
  · dsimp only at hrun' ⊢
    rw [hruns] at hrun'
    rw [hstore]
    -- the row of the job is now at the job's state
    refine (h.follows id run' hrun').flushed (hinv.run id run' hrun').1 (fun heq => ?_) hid node
    rw [findRun_runId hrun'] at heq
    subst heq
    obtain rfl := Option.some.inj (hrun.symm.trans hrun')
    exact hj
  · dsimp only at hrow hnone ⊢
    rw [hruns] at hnone
    rw [hstore] at hrow ⊢
    obtain ⟨spec, hspec, haccepts, hrows⟩ := h.rest row hrow hnone
    refine ⟨spec, hspec, haccepts, hrows.of_row? fun jobId => ?_⟩
    rw [RunStore.row?_upsertJob, if_neg]
    intro heq
    rw [show row.runId = key.1 from congrArg Prod.fst heq] at hnone
    exact absurd (hrun.symm.trans hnone) (by simp)

/-- Jobs move, and leave what they did to the flush. -/
theorem Stored.moved {s s' : SchedulerState} (h : Stored s) (hinv : JobsInv s)
    (hmoved : RunsMoved s.daemon.runs s'.daemon.runs) (hleft : LeftToFlush s s') : Stored s' := by
  have hstates : ∀ {id run run'}, findRun s.daemon.runs id = some run →
      findRun s'.daemon.runs id = some run' → ∀ jobId,
      (findJob s'.daemon.runs (id, jobId)).map JobInstance.state =
        (findJob s.daemon.runs (id, jobId)).map JobInstance.state →
      run'.stateOf jobId = run.stateOf jobId := by
    intro id run run' hrun hrun' jobId hsame
    rwa [findJob_eq_of_findRun (k := (id, jobId)) hrun',
      findJob_eq_of_findRun (k := (id, jobId)) hrun] at hsame
  refine ⟨hleft.store ▸ h.runs, hleft.store ▸ h.jobs, fun id run' hrun' => ?_,
    fun id run' hrun' => ?_, fun row hrow hnone => ?_⟩
  all_goals rw [hleft.store]
  · obtain ⟨run, hrun, hmove⟩ := hmoved.before hrun'
    rw [hmove.spec]
    exact h.spec id run hrun
  · obtain ⟨run, hrun, hmove⟩ := hmoved.before hrun'
    have hid := findRun_runId hrun
    refine (h.follows id run hrun).moved (hinv.run id run hrun).1 hmove (fun jobId hnot => ?_)
      (hleft.pending.imp_right fun ⟨htoWrite, hsame⟩ => ⟨htoWrite, fun jobId => ?_⟩)
    · exact hstates hrun hrun' jobId (hleft.kept _ (hid ▸ hnot))
    · exact hstates hrun hrun' jobId (hsame _)
  · rw [hleft.store] at hrow
    refine h.rest row hrow ?_
    rcases hmoved.run row.runId with ⟨hnone, -⟩ | ⟨_, _, -, hsome, -⟩
    · exact hnone
    · rw [hnone] at hsome; cases hsome

/-- Every step whose writes succeed keeps the store as the controller needs it. -/
theorem Stored.step {cfg : Config} {s s' : SchedulerState} {label : Label} (h : Stored s)
    (hinv : JobsInv s) (hok : label.StoreOk s.daemon.store) (hstep : Step cfg s label s') :
    Stored s' := by
  cases hstep.kind with
  | @submit _ runId spec _ now runWritten jobWritten hnew haccepts =>
    have hwritten := submit_written haccepts hok now runWritten jobWritten
    have hfind : ∀ id, findRun (submit s.daemon runId spec now runWritten jobWritten).runs id =
        if runId = id then some (.new runId s.daemon.runCounter spec s.daemon.jobCounter now)
        else findRun s.daemon.runs id := fun id => by
      rw [submit_runs hnew]; exact findRun_append id hnew
    refine ⟨hwritten.nodupRuns h.runs, hwritten.nodupJobs h.jobs,
      fun id run hrun row hrow hid => ?_, fun id run hrun => ?_, fun row hrow hnone => ?_⟩
    · dsimp only at hrun hrow
      rw [hfind] at hrun
      split at hrun
      · next heq =>
        obtain rfl := Option.some.inj hrun
        rcases hwritten.runs row hrow with hold | ⟨-, -, hspec⟩
        · exact absurd (hid.trans heq.symm) (hok.1 row hold)
        · exact hspec
      · next hne =>
        rcases hwritten.runs row hrow with hold | ⟨-, heq, -⟩
        · exact h.spec id run hrun row hold hid
        · exact absurd (heq.symm.trans hid) hne
    · dsimp only at hrun ⊢
      rw [hfind] at hrun
      split at hrun
      · obtain rfl := Option.some.inj hrun
        exact hwritten.follows haccepts _ _ _ _
      · next hne =>
        refine (h.follows id run hrun).of_row? fun jobId => hwritten.other _ fun heq => hne ?_
        exact heq.symm.trans (findRun_runId hrun)
    · dsimp only at hrow hnone ⊢
      rw [hfind] at hnone
      split at hnone
      · cases hnone
      · next hne =>
        rcases hwritten.runs row hrow with hold | ⟨-, heq, -⟩
        · obtain ⟨spec', hspec, haccepts', hrows⟩ := h.rest row hold hnone
          exact ⟨spec', hspec, haccepts', hrows.of_row? fun jobId =>
            hwritten.other _ fun heq => hne heq.symm⟩
        · exact absurd heq.symm hne
  | @flushed daemon checks key toWrite next written _ daemon' hflushed =>
    -- a write that fails would leave the row behind
    obtain rfl : written = true := hok
    obtain ⟨hruns, hwhy⟩ := flushTransition_written hflushed
    rcases hwhy with ⟨hnone, hstore⟩ | ⟨job, node, hjob, hstore⟩
    · exact h.dropped hruns hstore hnone
    · exact h.written hinv hruns hstore hjob
  | silent hsilent =>
    exact h.moved hinv (hstep.runs_silent hinv.keysInv hsilent)
      (hstep.leftToFlush hinv.keysInv hsilent)

end Roster
