import Roster.Scheduler.Apply
import Roster.Scheduler.Progress
import Roster.Scheduler.Step

/-!
# Jobs over runs of the scheduler

Results are applied without looking at a job's state again, so each phase relies on what the other
tasks may do while it gives way: a submit adds a run, a cancel marks Running jobs, and nothing else
touches a job.  `JobsInv` carries this between the phases: the jobs being launched are Queued and
distinct, the jobs being polled are Running and distinct.

From it every step moves every job by at most one edge of the state machine (`Step.runs`), and a
job holds an execution exactly while it is Running (`JobHolds`).
-/

namespace Roster

/-! ### The invariant -/

/-- Where the scheduler takes a job that started. -/
def ScheduleOutcome (state state' : JobState) : Prop :=
  (state = .queued ∧ (state' = .running ∨ state' = .failed)) ∨
    (state = .running ∧ (state' = .succeeded ∨ state' = .failed ∨ state' = .cancelled))

theorem ScheduleOutcome.outcome {state state' : JobState} (h : ScheduleOutcome state state') :
    Outcome state state' := by
  rcases h with ⟨rfl, rfl | rfl⟩ | ⟨rfl, rfl | rfl | rfl⟩
  · exact ⟨.inl rfl, rfl⟩
  · exact ⟨.inl rfl, rfl⟩
  · exact ⟨.inr rfl, rfl⟩
  · exact ⟨.inr rfl, rfl⟩
  · exact ⟨.inr rfl, rfl⟩

/-- A job holds one execution, with a handle, while it is Running, and none otherwise. -/
structure JobHolds (job : JobInstance) : Prop where
  running : job.state = .running →
    ∃ execution handle, job.executions = [execution] ∧ execution.handle = some handle
  idle : job.state ≠ .running → job.executions = []

/-- The outcome of launching a job on one node. -/
def LaunchOutcome.Single (outcome : LaunchOutcome) : Prop :=
  ∃ node alloc, ∃ launched : Except ExecutorError JobHandle,
    outcome.executions = [⟨node, alloc, launched.toOption⟩] ∧
      outcome.result = launched.map fun _ => ()

/-- The jobs with these keys are distinct and in the given state. -/
structure AllIn (runs : List WorkflowRun) (state : JobState) (keys : List JobKey) : Prop where
  nodup : keys.Nodup
  found : ∀ key ∈ keys, ∃ job, findJob runs key = some job ∧ job.state = state

/-- What the scheduler relies on in the phase it is in. -/
def PhaseInv (runs : List WorkflowRun) : Phase → Prop
  | .launching tasks outcomes =>
    AllIn runs .queued (tasks.map AdmitTask.key ++ outcomes.map LaunchOutcome.key) ∧
      (∀ task ∈ tasks, ∃ node alloc, task.placement = [(node, alloc)]) ∧
      ∀ outcome ∈ outcomes, outcome.Single
  | .polling todo entries =>
    AllIn runs .running (todo.map RunningJob.key ++ entries.map PollEntry.key)
  | _ => True

/-- What holds of the jobs between any two steps. -/
structure JobsInv (s : SchedulerState) : Prop where
  nodup : (s.daemon.runs.map WorkflowRun.runId).Nodup
  run : ∀ id run, findRun s.daemon.runs id = some run → RunInv run ∧ Dag.Accepts run.spec
  holds : ∀ key job, findJob s.daemon.runs key = some job → JobHolds job
  phase : PhaseInv s.daemon.runs s.phase

theorem JobsInv.keys {s : SchedulerState} (h : JobsInv s) : KeysNodup s.daemon.runs :=
  ⟨h.nodup, fun run hrun =>
    (h.run run.runId run ((Keyed.get?_eq_some h.nodup).2 ⟨hrun, rfl⟩)).1.nodup⟩

/-- The part of it that no job's state matters to: what the phases rely on. -/
structure KeysInv (s : SchedulerState) : Prop where
  keys : KeysNodup s.daemon.runs
  phase : PhaseInv s.daemon.runs s.phase

theorem JobsInv.keysInv {s : SchedulerState} (h : JobsInv s) : KeysInv s := ⟨h.keys, h.phase⟩

theorem KeysInv.jobIds {s : SchedulerState} (h : KeysInv s) {id : String} {run : WorkflowRun}
    (hrun : findRun s.daemon.runs id = some run) : (run.jobs.map JobInstance.jobId).Nodup :=
  h.keys.jobIds run (Keyed.mem_of_get? hrun)

/-- The run of a job, and the job in it. -/
theorem JobsInv.runOf {s : SchedulerState} (h : JobsInv s) {key : JobKey} {job : JobInstance}
    (hjob : findJob s.daemon.runs key = some job) : ∃ run, findRun s.daemon.runs key.1 = some run ∧
      run.job? key.2 = some job ∧ RunInv run := by
  obtain ⟨run, hrun, hj⟩ := findJob_eq_some.1 hjob
  exact ⟨run, hrun, hj, (h.run key.1 run hrun).1⟩

/-! ### What a step can do to the runs -/

/-- The same runs, each moved by at most one edge for each job. -/
structure RunsMoved (runs runs' : List WorkflowRun) : Prop where
  nodup : (runs.map WorkflowRun.runId).Nodup → (runs'.map WorkflowRun.runId).Nodup
  run : ∀ id, (findRun runs id = none ∧ findRun runs' id = none) ∨
    ∃ run run', findRun runs id = some run ∧ findRun runs' id = some run' ∧
      RunMoved ScheduleOutcome run run'
  holds : ∀ key job', findJob runs' key = some job' →
    ∃ job, findJob runs key = some job ∧ (JobHolds job → JobHolds job')

namespace RunsMoved

variable {runs runs' : List WorkflowRun}

theorem before (h : RunsMoved runs runs') {id : String} {run' : WorkflowRun}
    (hrun' : findRun runs' id = some run') :
    ∃ run, findRun runs id = some run ∧ RunMoved ScheduleOutcome run run' := by
  rcases h.run id with ⟨-, hnone⟩ | ⟨run, run'', hrun, hrun'', hmove⟩
  · rw [hnone] at hrun'
    cases hrun'
  · obtain rfl := Option.some.inj (hrun''.symm.trans hrun')
    exact ⟨run, hrun, hmove⟩

theorem after (h : RunsMoved runs runs') {id : String} {run : WorkflowRun}
    (hrun : findRun runs id = some run) :
    ∃ run', findRun runs' id = some run' ∧ RunMoved ScheduleOutcome run run' := by
  rcases h.run id with ⟨hnone, -⟩ | ⟨run₀, run', hrun₀, hrun', hmove⟩
  · rw [hnone] at hrun
    cases hrun
  · obtain rfl := Option.some.inj (hrun₀.symm.trans hrun)
    exact ⟨run', hrun', hmove⟩

theorem of_findRun_eq (hnodup : (runs.map WorkflowRun.runId).Nodup →
      (runs'.map WorkflowRun.runId).Nodup)
    (h : ∀ id, findRun runs' id = findRun runs id) : RunsMoved runs runs' where
  nodup := hnodup
  run id := by
    rw [h id]
    cases hrun : findRun runs id with
    | none => exact .inl ⟨rfl, rfl⟩
    | some run => exact .inr ⟨run, run, rfl, rfl, .refl run⟩
  holds key job' hjob := ⟨job', by simpa [findJob, h] using hjob, id⟩

theorem refl (runs : List WorkflowRun) : RunsMoved runs runs := of_findRun_eq id fun _ => rfl

/-- A change made run by run. -/
theorem map {g : WorkflowRun → WorkflowRun}
    (hg : ∀ run ∈ runs, RunMoved ScheduleOutcome run (g run))
    (hid : ∀ run, (g run).runId = run.runId)
    (hholds : ∀ run ∈ runs, ∀ id job', (g run).job? id = some job' →
      ∃ job, run.job? id = some job ∧ (JobHolds job → JobHolds job')) :
    RunsMoved runs (runs.map g) := by
  have hfind : ∀ id, findRun (runs.map g) id = (findRun runs id).map g := fun id =>
    Keyed.get?_map fun run _ => hid run
  refine ⟨fun h => ?_, fun id => ?_, fun key job' hjob => ?_⟩
  · rwa [List.map_map, show WorkflowRun.runId ∘ g = WorkflowRun.runId from funext hid]
  · rw [hfind]
    cases hrun : findRun runs id with
    | none => exact .inl ⟨rfl, rfl⟩
    | some run => exact .inr ⟨run, g run, rfl, rfl, hg run (Keyed.mem_of_get? hrun)⟩
  · obtain ⟨run', hrun', hj⟩ := findJob_eq_some.1 hjob
    rw [hfind, Option.map_eq_some_iff] at hrun'
    obtain ⟨run, hrun, rfl⟩ := hrun'
    obtain ⟨job, hj', himp⟩ := hholds run (Keyed.mem_of_get? hrun) key.2 job' hj
    exact ⟨job, findJob_eq_some.2 ⟨run, hrun, hj'⟩, himp⟩

/-- A change made job by job: the others are kept. -/
theorem of_kept {keys : List JobKey} (h : KeptExcept keys runs runs')
    (hchange : ∀ key ∈ keys, ∀ job, findJob runs key = some job → ∃ job',
      findJob runs' key = some job' ∧ job'.spec = job.spec ∧
        (∀ run, StateMove ScheduleOutcome run job job'.state) ∧ (JobHolds job → JobHolds job')) :
    RunsMoved runs runs' := by
  -- what became of one job
  have hjob : ∀ key job, findJob runs key = some job → ∃ job', findJob runs' key = some job' ∧
      job'.spec = job.spec ∧ (∀ run, StateMove ScheduleOutcome run job job'.state) ∧
      (JobHolds job → JobHolds job') := by
    intro key job hfind
    by_cases hkey : key ∈ keys
    · exact hchange key hkey job hfind
    · exact ⟨job, (h.kept key hkey).trans hfind, rfl, fun _ => .stay, id⟩
  -- a job that is there now was there before
  have hback : ∀ key job', findJob runs' key = some job' → ∃ job, findJob runs key = some job := by
    intro key job' hfind'
    obtain ⟨run', hrun', hj'⟩ := findJob_eq_some.1 hfind'
    rcases h.run key.1 with ⟨-, hnone⟩ | ⟨run, run'', hrun, hrun'', -, -, hids⟩
    · rw [hnone] at hrun'; cases hrun'
    · obtain rfl := Option.some.inj (hrun''.symm.trans hrun')
      have hmem : key.2 ∈ run.jobs.map JobInstance.jobId := hids ▸
        List.mem_map.2 ⟨job', Keyed.mem_of_get? hj', Keyed.key_of_get? hj'⟩
      cases hj : run.job? key.2 with
      | none =>
        obtain ⟨job, hjmem, hid⟩ := List.mem_map.1 hmem
        exact absurd hid (Keyed.get?_eq_none.1 hj job hjmem)
      | some job => exact ⟨job, findJob_eq_some.2 ⟨run, hrun, hj⟩⟩
  refine ⟨fun hnodup => h.ids ▸ hnodup, fun id => ?_, fun key job' hfind' => ?_⟩
  · rcases h.run id with hnone | ⟨run, run', hrun, hrun', hid, hspec, hids⟩
    · exact .inl hnone
    · refine .inr ⟨run, run', hrun, hrun', hid, hspec, fun hnodup => hids ▸ hnodup, fun jobId => ?_⟩
      cases hj : run.job? jobId with
      | some job =>
        obtain ⟨job', hfind', hsp, hmove, -⟩ :=
          hjob (id, jobId) job (findJob_eq_some.2 ⟨run, hrun, hj⟩)
        rw [findJob_eq_of_findRun (k := (id, jobId)) hrun'] at hfind'
        exact .inr ⟨job, job', rfl, hfind', hsp, hmove run⟩
      | none =>
        refine .inl ⟨rfl, ?_⟩
        cases hj' : run'.job? jobId with
        | none => rfl
        | some job' =>
          obtain ⟨job, hfind⟩ :=
            hback (id, jobId) job' (findJob_eq_some.2 ⟨run', hrun', hj'⟩)
          rw [findJob_eq_of_findRun (k := (id, jobId)) hrun, hj] at hfind
          cases hfind
  · obtain ⟨job, hfind⟩ := hback key job' hfind'
    obtain ⟨job'', hfind'', -, -, himp⟩ := hjob key job hfind
    obtain rfl := Option.some.inj (hfind''.symm.trans hfind')
    exact ⟨job, hfind, himp⟩

end RunsMoved

/-! ### The sections -/

theorem JobHolds.of_idle {job job' : JobInstance} (h : job.state ≠ .running)
    (h' : job'.state ≠ .running) (hexec : job'.executions = job.executions) :
    JobHolds job → JobHolds job' := fun hold =>
  ⟨fun hrun => absurd hrun h', fun _ => hexec.trans (hold.idle h)⟩

theorem JobHolds.of_same {job job' : JobInstance} (hstate : job'.state = job.state)
    (hexec : job'.executions = job.executions) : JobHolds job → JobHolds job' := fun hold =>
  ⟨fun hrun => hexec ▸ hold.running (hstate ▸ hrun), fun hrun => hexec ▸ hold.idle (hstate ▸ hrun)⟩

theorem RunsMoved.advancePending {runs : List WorkflowRun} (h : KeysNodup runs) :
    RunsMoved runs (advancePending runs).1 := by
  refine .map (fun run hrun => .advancePending (h.jobIds run hrun)) (fun _ => rfl)
    fun run hrun id job' hjob' => ?_
  rw [WorkflowRun.advancePending, WorkflowRun.job?_updateAll (f := JobInstance.queue)
    (fun _ => rfl) fun _ => rfl, Option.map_eq_some_iff] at hjob'
  obtain ⟨job, hjob, rfl⟩ := hjob'
  refine ⟨job, hjob, ?_⟩
  split
  · next hmem =>
    have hpending := ((WorkflowRun.mem_toQueue (h.jobIds run hrun) hjob).1 hmem).1
    exact .of_idle (by rw [hpending]; decide) JobState.noConfusion rfl
  · exact fun h => h

theorem RunsMoved.cascadeSkipped {runs : List WorkflowRun} (h : KeysNodup runs) (now : DateTime) :
    RunsMoved runs (cascadeSkipped runs now).1 := by
  refine .map (fun run hrun => .cascadeSkipped (h.jobIds run hrun) now) (fun _ => rfl)
    fun run hrun id job' hjob' => ?_
  rw [WorkflowRun.cascadeSkipped, WorkflowRun.job?_updateAll (f := JobInstance.skip now)
    (fun _ => rfl) fun _ => rfl, Option.map_eq_some_iff] at hjob'
  obtain ⟨job, hjob, rfl⟩ := hjob'
  refine ⟨job, hjob, ?_⟩
  split
  · next hmem =>
    have hwaits := ((WorkflowRun.mem_toSkip (h.jobIds run hrun) hjob).1 hmem).1
    refine .of_idle ?_ JobState.noConfusion rfl
    rcases hwaits with hs | hs <;> rw [hs] <;> exact JobState.noConfusion
  · exact fun h => h

/-- What a Cancel request does to a job. -/
def JobInstance.markCancelling (job : JobInstance) : JobInstance :=
  if job.state = .running then { job with cancelling := true } else job

/-- What a Cancel request does to its run. -/
def WorkflowRun.markCancelling (run : WorkflowRun) : WorkflowRun :=
  { run with jobs := run.jobs.map JobInstance.markCancelling }

theorem JobInstance.markCancelling_same (job : JobInstance) :
    job.markCancelling.jobId = job.jobId ∧ job.markCancelling.spec = job.spec ∧
      job.markCancelling.state = job.state ∧ job.markCancelling.executions = job.executions := by
  unfold markCancelling; split <;> exact ⟨rfl, rfl, rfl, rfl⟩

theorem WorkflowRun.job?_markCancelling (run : WorkflowRun) (id : String) :
    run.markCancelling.job? id = (run.job? id).map JobInstance.markCancelling :=
  Keyed.get?_map fun job _ => job.markCancelling_same.1

theorem cancelRun_eq (runs : List WorkflowRun) (runId : String) :
    cancelRun runs runId =
      Keyed.modify WorkflowRun.runId runs runId WorkflowRun.markCancelling := rfl

theorem findJob_cancelRun {runs : List WorkflowRun} {runId : String} (key : JobKey) :
    findJob (cancelRun runs runId) key = if key.1 = runId then
      (findJob runs key).map JobInstance.markCancelling else findJob runs key := by
  have hid : ∀ run : WorkflowRun, run.runId = runId → run.markCancelling.runId = runId :=
    fun _ h => h
  unfold findJob findRun
  rw [cancelRun_eq]
  by_cases h : key.1 = runId
  · rw [if_pos h, h, Keyed.get?_modify_self hid, Option.bind_map, Option.map_bind]
    exact congrArg _ (funext fun run => run.job?_markCancelling key.2)
  · rw [if_neg h, Keyed.get?_modify_ne hid h]

theorem RunMoved.markCancelling {outcome : JobState → JobState → Prop} (run : WorkflowRun) :
    RunMoved outcome run run.markCancelling := by
  refine ⟨rfl, rfl, fun hnodup => ?_, fun id => ?_⟩
  · have hids : run.markCancelling.jobs.map JobInstance.jobId = run.jobs.map JobInstance.jobId := by
      rw [WorkflowRun.markCancelling, List.map_map]
      exact List.map_congr_left fun job _ => job.markCancelling_same.1
    exact hids ▸ hnodup
  · rw [run.job?_markCancelling]
    cases hj : run.job? id with
    | none => exact .inl ⟨rfl, rfl⟩
    | some job =>
      obtain ⟨-, hspec, hstate, -⟩ := job.markCancelling_same
      exact .inr ⟨job, _, rfl, rfl, hspec, hstate ▸ .stay⟩

theorem RunsMoved.cancelRun (runs : List WorkflowRun) (runId : String) :
    RunsMoved runs (cancelRun runs runId) := by
  rw [cancelRun_eq]
  refine .map (fun run _ => ?_) (fun run => by split <;> rfl) fun run _ id job' hjob' => ?_
  · split
    · exact .markCancelling run
    · exact .refl run
  · split at hjob'
    · rw [run.job?_markCancelling, Option.map_eq_some_iff] at hjob'
      obtain ⟨job, hj, rfl⟩ := hjob'
      obtain ⟨-, -, hstate, hexec⟩ := job.markCancelling_same
      exact ⟨job, hj, .of_same hstate hexec⟩
    · exact ⟨job', hjob', fun h => h⟩

theorem findRun_reorderJobs {runs : List WorkflowRun} {runId : String} {run : WorkflowRun}
    {jobs : List JobInstance} (hrun : findRun runs runId = some run) (id : String) :
    findRun (Keyed.modify WorkflowRun.runId runs runId fun run => { run with jobs := jobs }) id =
      if id = runId then some { run with jobs := jobs } else findRun runs id := by
  unfold findRun at hrun ⊢
  split
  · next h =>
    have hself : Keyed.get? WorkflowRun.runId (Keyed.modify WorkflowRun.runId runs runId fun run =>
        { run with jobs := jobs }) runId = _ := Keyed.get?_modify_self fun _ h => h
    rw [h, hself, hrun, Option.map_some]
  · next h => exact Keyed.get?_modify_ne (fun _ h => h) h

theorem findJob_reorderJobs {runs : List WorkflowRun} {runId : String} {run : WorkflowRun}
    {jobs : List JobInstance} (hrun : findRun runs runId = some run) (hperm : run.jobs.Perm jobs)
    (hnodup : (run.jobs.map JobInstance.jobId).Nodup) (key : JobKey) :
    findJob (Keyed.modify WorkflowRun.runId runs runId fun run => { run with jobs := jobs }) key =
      findJob runs key := by
  unfold findJob
  rw [findRun_reorderJobs hrun]
  split
  · next h => rw [h, hrun]; exact Keyed.get?_perm hperm hnodup
  · rfl

theorem RunsMoved.reorderJobs {runs : List WorkflowRun} {runId : String} {run : WorkflowRun}
    {jobs : List JobInstance} (hrun : findRun runs runId = some run) (hperm : run.jobs.Perm jobs)
    (hnodup : (run.jobs.map JobInstance.jobId).Nodup) :
    RunsMoved runs (Keyed.modify WorkflowRun.runId runs runId fun run =>
      { run with jobs := jobs }) := by
  have hids : (Keyed.modify WorkflowRun.runId runs runId fun run =>
      { run with jobs := jobs }).map WorkflowRun.runId = _ := Keyed.map_key_modify fun _ h => h
  refine ⟨fun h => hids ▸ h, fun id => ?_, fun key job' hjob => ⟨job', ?_, fun h => h⟩⟩
  · rw [findRun_reorderJobs hrun]
    split
    · next h =>
      subst h
      refine .inr ⟨run, _, hrun, rfl, rfl, rfl, fun h => (hperm.map _).nodup_iff.1 h,
        fun jobId => ?_⟩
      have hsame : ({ run with jobs := jobs } : WorkflowRun).job? jobId = run.job? jobId :=
        Keyed.get?_perm hperm hnodup
      rw [hsame]
      cases hj : run.job? jobId with
      | none => exact .inl ⟨rfl, rfl⟩
      | some job => exact .inr ⟨job, job, rfl, rfl, rfl, .stay⟩
    · cases hfind : findRun runs id with
      | none => exact .inl ⟨rfl, rfl⟩
      | some run => exact .inr ⟨run, run, rfl, rfl, .refl run⟩
  · rwa [findJob_reorderJobs hrun hperm hnodup] at hjob

/-! ### Applying launches and polls -/

/-- What applying a result does to its job. -/
def JobApplied (job job' : JobInstance) : Prop :=
  job'.spec = job.spec ∧ (∀ run, StateMove ScheduleOutcome run job job'.state) ∧
    (JobHolds job → JobHolds job')

/-- What applying one result does to the runs. -/
structure OneApplied (state : JobState) (key : JobKey) (runs runs' : List WorkflowRun) : Prop where
  kept : KeptExcept [key] runs runs'
  job : ∀ job, findJob runs key = some job → job.state = state →
    ∃ job', findJob runs' key = some job' ∧ JobApplied job job'

theorem OneApplied.same {state : JobState} {key : JobKey} (runs : List WorkflowRun) :
    OneApplied state key runs runs :=
  ⟨(KeptExcept.refl runs).mono (List.nil_subset _), fun job hjob _ =>
    ⟨job, hjob, rfl, fun _ => .stay, id⟩⟩

theorem OneApplied.updateJob {state : JobState} {key : JobKey} {runs : List WorkflowRun}
    {f : JobInstance → JobInstance} (hid : ∀ job, job.jobId = key.2 → (f job).jobId = key.2)
    (hf : ∀ job, findJob runs key = some job → job.state = state → JobApplied job (f job)) :
    OneApplied state key runs (updateJob runs key f) :=
  ⟨.updateJob hid, fun job hjob hstate =>
    ⟨f job, by rw [findJob_updateJob hid, if_pos rfl, hjob, Option.map_some], hf job hjob hstate⟩⟩

theorem applyLaunch_applied {cfg : Config} {now : DateTime} {acc acc' : Applied}
    {outcome : LaunchOutcome} (hsingle : outcome.Single)
    (h : applyLaunch cfg now acc outcome = .ok acc') :
    OneApplied .queued outcome.key acc.daemon.runs acc'.daemon.runs := by
  obtain ⟨node, alloc, launched, hexec, hresult⟩ := hsingle
  cases applyLaunch_eq_ok h with
  | returned => exact .same _
  | started hjob hok _ _ =>
    refine .updateJob (fun _ h => h) fun job _ hstate => ⟨rfl, fun run => ?_, fun _ => ⟨fun _ => ?_,
      fun hne => absurd rfl hne⟩⟩
    · exact .outcome (.inl ⟨hstate, .inl rfl⟩)
    · rw [hresult] at hok
      cases launched with
      | error error => cases hok
      | ok handle => exact ⟨_, handle, hexec, rfl⟩
  | @turnedDown job reason execution reasons pools job' hjob _ _ _ hjob' =>
    have hid := findJob_jobId hjob
    refine .updateJob (fun _ _ => ?_) fun job₀ hjob₀ hstate => ?_
    · rw [hjob']; split <;> exact hid
    · obtain rfl := Option.some.inj (hjob.symm.trans hjob₀)
      rw [hjob']
      split
      · exact ⟨rfl, fun _ => .stay, .of_same rfl rfl⟩
      · exact ⟨rfl, fun _ => .outcome (.inl ⟨hstate, .inr rfl⟩),
          .of_idle (by rw [hstate]; decide) JobState.noConfusion rfl⟩
  | failed _ _ _ _ _ =>
    refine .updateJob (fun _ h => h) fun job _ hstate => ⟨rfl, fun _ =>
      .outcome (.inl ⟨hstate, .inr rfl⟩),
      .of_idle (by rw [hstate]; decide) JobState.noConfusion rfl⟩

theorem JobInstance.exited_applied {job : JobInstance} (hstate : job.state = .running)
    (exitCode : Int32) (cancelling : Bool) (tail : Option String) (now : DateTime) :
    JobApplied job (job.exited exitCode cancelling tail now) := by
  unfold exited
  split
  · exact ⟨rfl, fun _ => .outcome (.inr ⟨hstate, .inr (.inr rfl)⟩), fun _ =>
      ⟨JobState.noConfusion, fun _ => rfl⟩⟩
  split
  · exact ⟨rfl, fun _ => .outcome (.inr ⟨hstate, .inl rfl⟩), fun _ =>
      ⟨JobState.noConfusion, fun _ => rfl⟩⟩
  · exact ⟨rfl, fun _ => .outcome (.inr ⟨hstate, .inr (.inl rfl)⟩), fun _ =>
      ⟨JobState.noConfusion, fun _ => rfl⟩⟩

theorem applyPoll_applied {now : DateTime} {acc acc' : Applied} {entry : PollEntry}
    (h : applyPoll now acc entry = .ok acc') :
    OneApplied .running entry.key acc.daemon.runs acc'.daemon.runs := by
  cases applyPoll_eq_ok h with
  | same => exact .same _
  | failed _ _ _ _ =>
    exact .updateJob (fun _ h => h) fun job _ hstate => ⟨rfl, fun _ =>
      .outcome (.inr ⟨hstate, .inr (.inl rfl)⟩), fun _ => ⟨JobState.noConfusion, fun _ => rfl⟩⟩
  | exited _ _ _ =>
    exact .updateJob (fun job h => (job.exited_jobId _ _ _ _).trans h) fun job _ hstate =>
      JobInstance.exited_applied hstate _ _ _ _

/-! ### One result of many -/

section Results

variable {α : Type} {apply : Applied → α → Exec Applied} {key : α → JobKey} {results : List α}
  {acc acc' : Applied}

/-- Results that touch their own jobs only leave the others as they are. -/
theorem foldlM_kept
    (hone : ∀ acc acc' a, a ∈ results → apply acc a = .ok acc' →
      KeptExcept [key a] acc.daemon.runs acc'.daemon.runs)
    (h : results.foldlM apply acc = .ok acc') :
    KeptExcept (results.map key) acc.daemon.runs acc'.daemon.runs := by
  refine Exec.foldlM_invariant (P := fun mid =>
    KeptExcept (results.map key) acc.daemon.runs mid.daemon.runs) ?_ h
    ((KeptExcept.refl _).mono (List.nil_subset _))
  intro mid a mid' ha hmid hok
  refine (hmid.trans (hone mid mid' a ha hok)).mono (List.append_subset.2 ⟨List.Subset.refl _, ?_⟩)
  exact List.cons_subset.2 ⟨List.mem_map_of_mem ha, List.nil_subset _⟩

/-- A job without a result stays as it is. -/
theorem foldlM_elsewhere
    (hone : ∀ acc acc' a, a ∈ results → apply acc a = .ok acc' →
      KeptExcept [key a] acc.daemon.runs acc'.daemon.runs)
    (h : results.foldlM apply acc = .ok acc') {k : JobKey} (hk : ∀ a ∈ results, key a ≠ k) :
    findJob acc'.daemon.runs k = findJob acc.daemon.runs k := by
  refine (foldlM_kept hone h).kept k fun hmem => ?_
  obtain ⟨a, ha, heq⟩ := List.mem_map.1 hmem
  exact hk a ha heq

/-- Among results that are applied one after the other to distinct jobs, each finds its job as it
was at the start and leaves it as it is at the end. -/
theorem foldlM_at
    (hone : ∀ acc acc' a, a ∈ results → apply acc a = .ok acc' →
      KeptExcept [key a] acc.daemon.runs acc'.daemon.runs)
    (hnodup : (results.map key).Nodup) (h : results.foldlM apply acc = .ok acc') {a : α}
    (ha : a ∈ results) :
    ∃ before after mid mid', results = before ++ a :: after ∧
      before.foldlM apply acc = .ok mid ∧ apply mid a = .ok mid' ∧
      findJob mid.daemon.runs (key a) = findJob acc.daemon.runs (key a) ∧
      findJob acc'.daemon.runs (key a) = findJob mid'.daemon.runs (key a) := by
  obtain ⟨before, after, rfl⟩ := List.append_of_mem ha
  rw [List.map_append, List.map_cons] at hnodup
  obtain ⟨-, hcons, hdisjoint⟩ := List.nodup_append.1 hnodup
  rw [List.foldlM_append, Exec.bind_eq_ok] at h
  obtain ⟨mid, hbefore, h⟩ := h
  rw [List.foldlM_cons, Exec.bind_eq_ok] at h
  obtain ⟨mid', hmid', hafter⟩ := h
  refine ⟨before, after, mid, mid', rfl, hbefore, hmid', ?_, ?_⟩
  · refine foldlM_elsewhere (fun acc acc' b hb => hone acc acc' b (List.mem_append_left _ hb))
      hbefore fun b hb heq => ?_
    exact hdisjoint _ (List.mem_map_of_mem hb) _ List.mem_cons_self heq
  · refine foldlM_elsewhere (fun acc acc' b hb => hone acc acc' b
      (List.mem_append_right _ (List.mem_cons_of_mem _ hb))) hafter fun b hb heq => ?_
    exact (List.nodup_cons.1 hcons).1 (heq ▸ List.mem_map_of_mem hb)

/-- Applying results one after the other, each to another job in the same state. -/
theorem foldlM_applied {state : JobState}
    (hone : ∀ acc acc' a, a ∈ results → apply acc a = .ok acc' →
      OneApplied state (key a) acc.daemon.runs acc'.daemon.runs)
    (hin : AllIn acc.daemon.runs state (results.map key))
    (h : results.foldlM apply acc = .ok acc') :
    KeptExcept (results.map key) acc.daemon.runs acc'.daemon.runs ∧
      ∀ k ∈ results.map key, ∀ job, findJob acc.daemon.runs k = some job →
        ∃ job', findJob acc'.daemon.runs k = some job' ∧ JobApplied job job' := by
  have hkept : ∀ acc acc' a, a ∈ results → apply acc a = .ok acc' →
      KeptExcept [key a] acc.daemon.runs acc'.daemon.runs :=
    fun acc acc' a ha hok => (hone acc acc' a ha hok).kept
  refine ⟨foldlM_kept hkept h, fun k hk job hjob => ?_⟩
  obtain ⟨job₀, hjob₀, hstate⟩ := hin.found k hk
  obtain rfl := Option.some.inj (hjob₀.symm.trans hjob)
  obtain ⟨a, ha, rfl⟩ := List.mem_map.1 hk
  obtain ⟨-, -, mid, mid', -, -, happly, hbefore, hafter⟩ := foldlM_at hkept hin.nodup h ha
  obtain ⟨job', hjob', happlied⟩ :=
    (hone mid mid' a ha happly).job job₀ (hbefore.trans hjob) hstate
  exact ⟨job', hafter.trans hjob', happlied⟩

end Results

theorem RunsMoved.applied {keys : List JobKey} {runs runs' : List WorkflowRun}
    (hkept : KeptExcept keys runs runs')
    (hjobs : ∀ k ∈ keys, ∀ job, findJob runs k = some job →
      ∃ job', findJob runs' k = some job' ∧ JobApplied job job') : RunsMoved runs runs' :=
  .of_kept hkept fun k hk job hjob =>
    have ⟨job', hjob', hspec, hmove, hholds⟩ := hjobs k hk job hjob
    ⟨job', hjob', hspec, hmove, hholds⟩

/-! ### Every step -/

/-- The runs after a submit. -/
theorem submit_runs {daemon : DaemonState} {runId : String} {spec : WorkflowSpec} {now : DateTime}
    {runWritten : Bool} {jobWritten : String → Bool} (h : findRun daemon.runs runId = none) :
    (submit daemon runId spec now runWritten jobWritten).runs =
      daemon.runs ++ [.new runId daemon.runCounter spec daemon.jobCounter now] :=
  Keyed.insert_of_fresh h

/-- Every step moves the runs that are there, or adds one. -/
theorem Step.runs {cfg : Config} {s s' : SchedulerState} {label : Label} (hinv : KeysInv s)
    (h : Step cfg s label s') : RunsMoved s.daemon.runs s'.daemon.runs ∨
      ∃ runId spec runSeq jobSeq now, findRun s.daemon.runs runId = none ∧ Dag.Accepts spec ∧
        s'.daemon.runs = s.daemon.runs ++ [.new runId runSeq spec jobSeq now] ∧
        s'.phase = s.phase ∧
        ∃ iter runWritten jobWritten,
          label = .submit runId spec iter now runWritten jobWritten := by
  have hkeys := hinv.keys
  cases h with
  | submit hfresh hspec _ =>
    exact .inr ⟨_, _, _, _, _, hfresh, hspec, submit_runs hfresh, rfl, _, _, _, rfl⟩
  | cancel runId => exact .inl (.cancelRun _ _)
  | reorderRuns hperm =>
    exact .inl (.of_findRun_eq (fun h => (hperm.map _).nodup_iff.1 h) fun id =>
      Keyed.get?_perm hperm hkeys.runIds)
  | reorderJobs hrun hperm =>
    exact .inl (.reorderJobs hrun hperm (hinv.jobIds hrun))
  | checkGpus => exact .inl (.refl _)
  | qualificationOver _ => exact .inl (.refl _)
  | qualificationKept _ => exact .inl (.refl _)
  | qualificationsFinished _ => exact .inl (.refl _)
  | gpusBlocked _ hok =>
    obtain ⟨_, _, rfl, -⟩ := blockGpus_eq_ok hok
    exact .inl (.refl _)
  | qualificationLaunched _ => exact .inl (.refl _)
  | gpusChecked => exact .inl (.refl _)
  | tick => exact .inl (.advancePending hkeys)
  | flushed hok =>
    obtain ⟨_, _, rfl⟩ := flushTransition_eq_ok hok
    exact .inl (.refl _)
  | flushDone _ => exact .inl (.refl _)
  | cascade now => exact .inl (.cascadeSkipped hkeys now)
  | admitQueued _ _ => exact .inl (.refl _)
  | launched _ => exact .inl (.refl _)
  | @launchesApplied _ _ outcomes now _ hok =>
    obtain ⟨hin, -, hsingle⟩ := hinv.phase
    rw [List.map_nil, List.nil_append] at hin
    unfold applyLaunches at hok
    -- each outcome moves its own job, which is Queued until then
    have hone : ∀ acc acc' outcome, outcome ∈ outcomes →
        applyLaunch cfg now acc outcome = .ok acc' → OneApplied .queued outcome.key
          acc.daemon.runs acc'.daemon.runs :=
      fun _ _ outcome hmem => applyLaunch_applied (hsingle outcome hmem)
    obtain ⟨hkept, hjobs⟩ := foldlM_applied hone hin hok
    exact .inl (.applied hkept hjobs)
  | collect => exact .inl (.refl _)
  | polled => exact .inl (.refl _)
  | @pollsApplied _ _ entries now _ hok =>
    have hin : AllIn _ .running ([] ++ _) := hinv.phase
    rw [List.nil_append] at hin
    unfold applyPolls at hok
    have hone : ∀ acc acc' entry, entry ∈ entries → applyPoll now acc entry = .ok acc' →
        OneApplied .running entry.key acc.daemon.runs acc'.daemon.runs :=
      fun _ _ _ _ => applyPoll_applied
    obtain ⟨hkept, hjobs⟩ := foldlM_applied hone hin hok
    exact .inl (.applied hkept hjobs)

/-- A silent step takes no run in. -/
theorem Step.runs_silent {cfg : Config} {s s' : SchedulerState} {label : Label} (hinv : KeysInv s)
    (h : Step cfg s label s') (hsilent : label.Silent) :
    RunsMoved s.daemon.runs s'.daemon.runs := by
  rcases h.runs hinv with hmoved | ⟨_, _, _, _, _, -, -, -, -, _, _, _, rfl⟩
  · exact hmoved
  · exact hsilent.elim

/-! ### The phases -/

theorem AllIn.of_kept {runs runs' : List WorkflowRun} {state : JobState} {keys : List JobKey}
    (hkept : ∀ key job, findJob runs key = some job →
      ∃ job', findJob runs' key = some job' ∧ job'.state = job.state)
    (h : AllIn runs state keys) : AllIn runs' state keys :=
  ⟨h.nodup, fun key hkey =>
    have ⟨job, hjob, hstate⟩ := h.found key hkey
    have ⟨job', hjob', hstate'⟩ := hkept key job hjob
    ⟨job', hjob', hstate'.trans hstate⟩⟩

/-- What other tasks may do while the scheduler gives way: no job changes its state. -/
theorem PhaseInv.of_kept {runs runs' : List WorkflowRun} {phase : Phase}
    (hkept : ∀ key job, findJob runs key = some job →
      ∃ job', findJob runs' key = some job' ∧ job'.state = job.state)
    (h : PhaseInv runs phase) : PhaseInv runs' phase := by
  cases phase with
  | launching tasks outcomes => exact ⟨h.1.of_kept hkept, h.2⟩
  | polling todo entries => exact AllIn.of_kept hkept h
  | _ => trivial

theorem findJob_append {runs : List WorkflowRun} {run : WorkflowRun}
    (hfresh : findRun runs run.runId = none) {key : JobKey} {job : JobInstance}
    (hjob : findJob runs key = some job) : findJob (runs ++ [run]) key = some job := by
  obtain ⟨run', hrun', hj⟩ := findJob_eq_some.1 hjob
  refine findJob_eq_some.2 ⟨run', ?_, hj⟩
  have happend := Keyed.get?_append_singleton (k := key.1) run hfresh
  refine happend.trans ?_
  rw [if_neg, ← hrun', findRun]
  intro hid
  rw [← hid, hfresh] at hrun'
  cases hrun'

/-- The jobs that were admitted are Queued and distinct. -/
theorem Admitted.allIn {runs : List WorkflowRun} (hkeys : KeysNodup runs) {online : List Bool}
    {pools pools' : List ResourcePool} {tasks : List AdmitTask}
    (h : Admitted online (allJobs runs) pools tasks pools') :
    AllIn runs .queued (tasks.map AdmitTask.key) := by
  have hsub := h.sublist.map fun entry => ((entry.1, entry.2.jobId) : JobKey)
  rw [List.map_map] at hsub
  refine ⟨hkeys.nodup.sublist hsub, fun key hkey => ?_⟩
  obtain ⟨task, htask, rfl⟩ := List.mem_map.1 hkey
  exact ⟨task.jobInstance, hkeys.findJob (h.sublist.subset (List.mem_map_of_mem htask)),
    (h.single task htask).1⟩

theorem runningJob?_eq_some {entry : String × JobInstance} {job : RunningJob} :
    runningJob? entry = some job ↔ entry.2.state = .running ∧ ∃ execution handle,
      entry.2.executions.head? = some execution ∧ execution.handle = some handle ∧
        job = ⟨entry.1, entry.2.jobId, execution.node, handle, entry.2.cancelling⟩ := by
  unfold runningJob?
  rw [Option.ite_none_right_eq_some]
  refine and_congr_right fun _ => ?_
  simp only [Option.bind_eq_some_iff, Option.map_eq_some_iff]
  constructor
  · rintro ⟨execution, hhead, handle, hhandle, rfl⟩
    exact ⟨execution, handle, hhead, hhandle, rfl⟩
  · rintro ⟨execution, handle, hhead, hhandle, rfl⟩
    exact ⟨execution, hhead, handle, hhandle, rfl⟩

/-- What is polled: the first execution of a Running job, with the job's flag. -/
theorem mem_collectRunning {runs : List WorkflowRun} (hkeys : KeysNodup runs) {job : RunningJob}
    (hjob : job ∈ collectRunning runs) :
    ∃ found, findJob runs job.key = some found ∧ found.state = .running ∧
      found.cancelling = job.cancelling ∧ ∃ execution ∈ found.executions,
        execution.node = job.node ∧ execution.handle = some job.handle := by
  obtain ⟨entry, hentry, hrunning⟩ := List.mem_filterMap.1 hjob
  obtain ⟨hstate, execution, handle, hhead, hhandle, rfl⟩ := runningJob?_eq_some.1 hrunning
  exact ⟨entry.2, hkeys.findJob hentry, hstate, rfl, execution, List.mem_of_mem_head? hhead, rfl,
    hhandle⟩

/-- The jobs to poll are Running and distinct. -/
theorem collectRunning_allIn {runs : List WorkflowRun} (hkeys : KeysNodup runs) :
    AllIn runs .running ((collectRunning runs).map RunningJob.key) := by
  have hsub : ∀ entries : List (String × JobInstance),
      ((entries.filterMap runningJob?).map RunningJob.key).Sublist
        (entries.map fun entry => ((entry.1, entry.2.jobId) : JobKey)) := by
    intro entries
    induction entries with
    | nil => exact .slnil
    | cons entry entries ih =>
      rw [List.filterMap_cons]
      split
      · exact ih.cons _
      · next job hjob =>
        obtain ⟨-, execution, handle, -, -, rfl⟩ := runningJob?_eq_some.1 hjob
        exact ih.cons_cons _
  refine ⟨hkeys.nodup.sublist (hsub _), fun key hkey => ?_⟩
  obtain ⟨job, hjob, rfl⟩ := List.mem_map.1 hkey
  obtain ⟨found, hfound, hstate, -⟩ := mem_collectRunning hkeys hjob
  exact ⟨found, hfound, hstate⟩

/-- Every step leaves the next phase what it relies on. -/
theorem Step.phaseInv {cfg : Config} {s s' : SchedulerState} {label : Label} (hinv : KeysInv s)
    (h : Step cfg s label s') : PhaseInv s'.daemon.runs s'.phase := by
  have hphase := hinv.phase
  have hkeys := hinv.keys
  cases h with
  | submit hfresh _ _ =>
    refine hphase.of_kept fun key job hjob => ⟨job, ?_, rfl⟩
    rw [submit_runs hfresh]
    exact findJob_append hfresh hjob
  | cancel runId =>
    refine hphase.of_kept fun key job hjob => ?_
    rw [findJob_cancelRun, hjob]
    split
    · exact ⟨_, rfl, job.markCancelling_same.2.2.1⟩
    · exact ⟨job, rfl, rfl⟩
  | reorderRuns hperm =>
    refine hphase.of_kept fun key job hjob => ⟨job, ?_, rfl⟩
    obtain ⟨run, hrun, hj⟩ := findJob_eq_some.1 hjob
    exact findJob_eq_some.2 ⟨run, (Keyed.get?_perm hperm hkeys.runIds).trans hrun, hj⟩
  | reorderJobs hrun hperm =>
    refine hphase.of_kept fun key job hjob => ⟨job, ?_, rfl⟩
    rw [findJob_reorderJobs hrun hperm (hinv.jobIds hrun), hjob]
  | flushDone next => cases next <;> trivial
  | admitQueued _ hok =>
    have hadmitted := admitQueued_eq_ok hok
    refine ⟨?_, fun task htask => (hadmitted.single task htask).2, by simp⟩
    rw [List.map_nil, List.append_nil]
    exact hadmitted.allIn hkeys
  | @launched _ _ task tasks outcomes results hlen =>
    obtain ⟨hin, hplaced, hsingle⟩ := hphase
    obtain ⟨⟨node, alloc, hplacement⟩, hplaced⟩ := List.forall_mem_cons.1 hplaced
    obtain ⟨launched, -, houtcome⟩ := AdmitTask.outcome_single hplacement hlen
    -- the key of the task goes over to its outcome
    have hperm : (tasks.map AdmitTask.key ++
        (outcomes ++ [task.outcome results]).map LaunchOutcome.key).Perm
        ((task :: tasks).map AdmitTask.key ++ outcomes.map LaunchOutcome.key) := by
      rw [List.map_append, ← List.append_assoc]
      exact List.perm_append_comm
    refine ⟨⟨hperm.nodup_iff.2 hin.nodup, fun key hkey => hin.found key (hperm.subset hkey)⟩,
      hplaced, fun outcome hmem => ?_⟩
    rcases List.mem_append.1 hmem with hmem | hmem
    · exact hsingle outcome hmem
    · rw [List.mem_singleton.1 hmem, houtcome]
      exact ⟨node, alloc, launched, rfl, rfl⟩
  | collect =>
    have hin := collectRunning_allIn hkeys
    rw [← List.append_nil (List.map RunningJob.key _)] at hin
    exact hin
  | @polled _ _ job todo entries result tail =>
    have hin : AllIn _ .running _ := hphase
    have hperm : (todo.map RunningJob.key ++
        (entries ++ [job.entry result tail]).map PollEntry.key).Perm
        ((job :: todo).map RunningJob.key ++ entries.map PollEntry.key) := by
      rw [List.map_append, ← List.append_assoc]
      exact List.perm_append_comm
    exact ⟨hperm.nodup_iff.2 hin.nodup, fun key hkey => hin.found key (hperm.subset hkey)⟩
  | _ => trivial

/-! ### Runs -/

/-- Where a run of the scheduler starts: every workflow run is as `WorkflowRun::new` made it. -/
structure SchedulerState.Fresh (s : SchedulerState) : Prop where
  nodup : (s.daemon.runs.map WorkflowRun.runId).Nodup
  new : ∀ run ∈ s.daemon.runs, ∃ runId runSeq spec jobSeq now, Dag.Accepts spec ∧
    run = .new runId runSeq spec jobSeq now
  phase : s.phase = .idle

theorem SchedulerState.Fresh.init (pools : List ResourcePool) :
    (SchedulerState.init pools).Fresh where
  nodup := List.nodup_nil
  new _ hrun := by cases hrun
  phase := rfl

theorem JobHolds.new {spec : WorkflowSpec} (h : Dag.Accepts spec) {runId : String}
    {runSeq jobSeq : ℕ} {now : DateTime} {id : String} {job : JobInstance}
    (hjob : (WorkflowRun.new runId runSeq spec jobSeq now).job? id = some job) : JobHolds job := by
  obtain ⟨hpending, hexec⟩ := WorkflowRun.job?_new h hjob
  exact ⟨fun hrun => absurd (hpending.symm.trans hrun) JobState.noConfusion, fun _ => hexec⟩

theorem SchedulerState.Fresh.jobsInv {s : SchedulerState} (h : s.Fresh) : JobsInv s where
  nodup := h.nodup
  run id run hrun := by
    obtain ⟨_, _, _, _, _, hspec, rfl⟩ := h.new run (Keyed.mem_of_get? hrun)
    exact ⟨.new hspec _ _ _ _, hspec⟩
  holds key job hjob := by
    obtain ⟨run, hrun, hj⟩ := findJob_eq_some.1 hjob
    obtain ⟨_, _, _, _, _, hspec, rfl⟩ := h.new run (Keyed.mem_of_get? hrun)
    exact .new hspec hj
  phase := by rw [h.phase]; trivial

theorem findRun_append {runs : List WorkflowRun} {run : WorkflowRun} (id : String)
    (hfresh : findRun runs run.runId = none) :
    findRun (runs ++ [run]) id = if run.runId = id then some run else findRun runs id :=
  Keyed.get?_append_singleton run hfresh

/-- Every step keeps jobs distinct, and what the phases rely on. -/
theorem KeysInv.step {cfg : Config} {s s' : SchedulerState} {label : Label} (hinv : KeysInv s)
    (h : Step cfg s label s') : KeysInv s' := by
  have hfound : ∀ run' ∈ s'.daemon.runs, (s'.daemon.runs.map WorkflowRun.runId).Nodup →
      findRun s'.daemon.runs run'.runId = some run' := fun run' hrun' hnodup =>
    (Keyed.get?_eq_some hnodup).2 ⟨hrun', rfl⟩
  refine ⟨?_, h.phaseInv hinv⟩
  rcases h.runs hinv with hmoved | ⟨runId, spec, runSeq, jobSeq, now, hfresh, hspec, hruns, -⟩
  · have hnodup := hmoved.nodup hinv.keys.runIds
    refine ⟨hnodup, fun run' hrun' => ?_⟩
    obtain ⟨run, hrun, hmove⟩ := hmoved.before (hfound run' hrun' hnodup)
    exact hmove.nodup (hinv.jobIds hrun)
  · rw [hruns]
    refine ⟨Keyed.nodup_append_singleton hinv.keys.runIds hfresh, fun run' hrun' => ?_⟩
    rcases List.mem_append.1 hrun' with hrun' | hrun'
    · exact hinv.keys.jobIds run' hrun'
    · rw [List.mem_singleton.1 hrun']
      exact (RunInv.new hspec runId runSeq jobSeq now).nodup

/-- Every step keeps the invariant. -/
theorem JobsInv.step {cfg : Config} {s s' : SchedulerState} {label : Label} (hinv : JobsInv s)
    (h : Step cfg s label s') : JobsInv s' := by
  have hphase := h.phaseInv hinv.keysInv
  rcases h.runs hinv.keysInv with
    hmoved | ⟨runId, spec, runSeq, jobSeq, now, hfresh, hspec, hruns, -⟩
  · refine ⟨hmoved.nodup hinv.nodup, fun id run' hrun' => ?_, fun key job' hjob' => ?_, hphase⟩
    · obtain ⟨run, hrun, hmove⟩ := hmoved.before hrun'
      obtain ⟨hri, hacc⟩ := hinv.run id run hrun
      exact ⟨hri.moved (fun _ _ => ScheduleOutcome.outcome) hmove, hmove.spec ▸ hacc⟩
    · obtain ⟨job, hjob, himp⟩ := hmoved.holds key job' hjob'
      exact himp (hinv.holds key job hjob)
  · refine ⟨?_, fun id run hrun => ?_, fun key job hjob => ?_, hphase⟩
    · rw [hruns]; exact Keyed.nodup_append_singleton hinv.nodup hfresh
    · rw [hruns, findRun_append id hfresh] at hrun
      split at hrun
      · obtain rfl := Option.some.inj hrun
        exact ⟨.new hspec _ _ _ _, hspec⟩
      · exact hinv.run id run hrun
    · obtain ⟨run, hrun, hj⟩ := findJob_eq_some.1 hjob
      rw [hruns, findRun_append key.1 hfresh] at hrun
      split at hrun
      · obtain rfl := Option.some.inj hrun
        exact .new hspec hj
      · exact hinv.holds key job (findJob_eq_some.2 ⟨run, hrun, hj⟩)

theorem JobsInv.reach {cfg : Config} {s₀ s : SchedulerState} (hfresh : s₀.Fresh)
    (h : (scheduler cfg).Reach s₀ s) : JobsInv s :=
  h.invariant hfresh.jobsInv fun _ _ _ _ hinv hstep => hinv.step (step_of_perform hstep)

/-- The edges of the state machine of a job. -/
inductive Edge : JobState → JobState → Prop
  | queue : Edge .pending .queued
  | skip : Edge .pending .skipped
  | start : Edge .queued .running
  | refuse : Edge .queued .failed
  | succeed : Edge .running .succeeded
  | fail : Edge .running .failed
  | cancel : Edge .running .cancelled

/-- A move of a job whose started jobs have succeeded dependencies is along an edge. -/
theorem StateMove.edge {run : WorkflowRun} {job : JobInstance} {state' : JobState}
    (hdeps : job.state.hasStarted = true → run.depsSucceeded job = true)
    (h : StateMove ScheduleOutcome run job state') :
    state' = job.state ∨ Edge job.state state' := by
  cases h with
  | stay => exact .inl rfl
  | queue hpending _ => rw [hpending]; exact .inr .queue
  | skip hwaits hbad =>
    rcases hwaits with hs | hs
    · rw [hs]; exact .inr .skip
    · -- a Queued job is never skipped: all it depends on succeeded
      have hsucc := hdeps (by rw [hs]; rfl)
      rw [WorkflowRun.depBad_of_depsSucceeded hsucc] at hbad
      cases hbad
  | outcome hout =>
    rcases hout with ⟨hs, rfl | rfl⟩ | ⟨hs, rfl | rfl | rfl⟩ <;> rw [hs]
    · exact .inr .start
    · exact .inr .refuse
    · exact .inr .succeed
    · exact .inr .fail
    · exact .inr .cancel

/-- **Jobs move along the edges of their state machine.**  In every state of every run of the
scheduler a job that started has only succeeded dependencies and holds one execution, with a
handle, exactly while it is Running; every step leaves a job in its state or moves it along an
edge, and a terminal job stays as it is. -/
theorem jobs_safe {cfg : Config} {s₀ s : SchedulerState} (hfresh : s₀.Fresh)
    (h : (scheduler cfg).Reach s₀ s) :
    (∀ key job, findJob s.daemon.runs key = some job →
      (job.state = .queued ∨ job.state = .running ∨ job.state = .succeeded ∨
          job.state = .failed ∨ job.state = .cancelled →
        ∀ dep ∈ job.spec.dependsOn, ∃ depJob, findJob s.daemon.runs (key.1, dep) = some depJob ∧
          depJob.state = .succeeded) ∧
      (job.executions ≠ [] ↔ job.state = .running) ∧
      (job.state = .running → ∃ execution handle, job.executions = [execution] ∧
        execution.handle = some handle)) ∧
    ∀ label s', (scheduler cfg).step s label s' →
      ∀ key job, findJob s.daemon.runs key = some job → ∃ job',
        findJob s'.daemon.runs key = some job' ∧
          (job'.state = job.state ∨ Edge job.state job'.state) ∧
          (job.state.isTerminal = true → job'.state = job.state) := by
  have hinv := JobsInv.reach hfresh h
  refine ⟨fun key job hjob => ⟨fun hstarted dep hdep => ?_, ?_, (hinv.holds key job hjob).running⟩,
    fun label s' hstep key job hjob => ?_⟩
  · obtain ⟨run, hrun, hj, hri⟩ := hinv.runOf hjob
    have hst : job.state.hasStarted = true := by
      rcases hstarted with hs | hs | hs | hs | hs <;> rw [hs] <;> rfl
    have hsucc := WorkflowRun.depsSucceeded_iff.1 (hri.started key.2 job hj hst) dep hdep
    obtain ⟨depJob, hdepJob, hstate⟩ : ∃ depJob, run.job? dep = some depJob ∧
        depJob.state = .succeeded := by simpa [WorkflowRun.stateOf] using hsucc
    exact ⟨depJob, findJob_eq_some.2 ⟨run, hrun, hdepJob⟩, hstate⟩
  · have hholds := hinv.holds key job hjob
    constructor
    · intro hexec
      by_contra hne
      exact hexec (hholds.idle hne)
    · intro hrun hnil
      obtain ⟨execution, handle, hexec, -⟩ := hholds.running hrun
      rw [hnil] at hexec
      cases hexec
  · obtain ⟨run, hrun, hj, hri⟩ := hinv.runOf hjob
    rcases (step_of_perform hstep).runs hinv.keysInv with hmoved |
      ⟨runId, spec, runSeq, jobSeq, now, hnew, -, hruns, -⟩
    · obtain ⟨run', hrun', hmove⟩ := hmoved.after hrun
      rcases hmove.job key.2 with ⟨hnone, -⟩ | ⟨job₀, job', hj₀, hj', -, hstate⟩
      · rw [hnone] at hj; cases hj
      · obtain rfl := Option.some.inj (hj₀.symm.trans hj)
        exact ⟨job', findJob_eq_some.2 ⟨run', hrun', hj'⟩, hstate.edge (hri.started key.2 _ hj),
          hstate.eq_of_isTerminal fun _ _ => ScheduleOutcome.outcome⟩
    -- a new run leaves the jobs of the others
    · exact ⟨job, hruns ▸ findJob_append hnew hjob, .inl rfl, fun _ => rfl⟩

/-- A controller on one machine. -/
def oneMachine : Config := ⟨[⟨"local", none⟩], "/home/roster"⟩

/-- What happens until the first of two jobs runs. -/
def startsFirst : List Label :=
  [.submit "r" twoJobs twoJobs.jobs 0 true fun _ => true, .tick, .flushed true 1, .flushDone,
    .cascade 2, .flushDone, .admitQueued [true], .launched [.ok ⟨7, .process none none⟩],
    .launchesApplied 3]

/-- A machine with one card. -/
def oneCard : SystemResources := ⟨4, 8192, [⟨0, "fake", 24576, ""⟩]⟩

/-- Two jobs that each want a card. -/
def cardEach : WorkflowSpec :=
  ⟨"pair", [{ id := "a", command := "true", resources := { gpu := 1 } },
    { id := "b", command := "true", resources := { gpu := 1 } }]⟩

/-- What the scheduler does until the first of two jobs has the card. -/
def givesCard : List Label :=
  [.submit "r" cardEach cardEach.jobs 0 true fun _ => true, .tick, .flushed true 1,
    .flushed true 1, .flushDone, .cascade 2, .flushDone, .admitQueued [true],
    .launched [.ok ⟨7, .process none none⟩], .launchesApplied 3, .flushed true 4, .flushDone]

/-- Once the first of two jobs runs, it holds one execution. -/
theorem startsFirst_holds : ∃ s, (scheduler oneMachine).Reach
      (.init [.new ⟨4, 8192, []⟩]) s ∧ ∃ job, findJob s.daemon.runs ("r", "a") = some job ∧
    ∃ execution handle, job.executions = [execution] ∧ execution.handle = some handle := by
  have hrun : ((SchedulerState.run oneMachine (.init [.new ⟨4, 8192, []⟩]) startsFirst).bind
      fun s => (findJob s.daemon.runs ("r", "a")).map JobInstance.state) = some .running := by
    decide
  obtain ⟨s, hs, hjob⟩ := Option.bind_eq_some_iff.1 hrun
  obtain ⟨job, hjob, hstate⟩ := Option.map_eq_some_iff.1 hjob
  have hreach := SchedulerState.reach_of_run hs
  exact ⟨s, hreach, job, hjob, ((jobs_safe (.init _) hreach).1 _ job hjob).2.2 hstate⟩

end Roster
