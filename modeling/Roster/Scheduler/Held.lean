import Roster.Scheduler.Apply
import Roster.Scheduler.RunMachine

/-!
# What is out over the whole scheduler

`SchedulerState.held` collects every allocation somebody has to give back: the executions of the
jobs, the cards of `checks.qualifying`, and what the phase carries between two locked sections.
A section moves allocations between the pools and `held`; here is how `held` follows the jobs.
-/

namespace Roster

/-- A node and an allocation on it. -/
def Execution.member (execution : Execution) : ℕ × Allocation :=
  (execution.node, execution.allocation)

/-- The card a qualification holds. -/
def Qualification.member (qualification : Qualification) : ℕ × Allocation :=
  (qualification.node, qualification.allocation)

/-- The card reserved for a qualification. -/
def ToQualify.member (card : ToQualify) : ℕ × Allocation := (card.node, card.allocation)

/-- What executions hold. -/
def executionsHeld (executions : List Execution) : Multiset (ℕ × Allocation) :=
  ↑(executions.map Execution.member)

/-- What the jobs of a run hold. -/
def WorkflowRun.held (run : WorkflowRun) : Multiset (ℕ × Allocation) :=
  (run.jobs.map fun job => executionsHeld job.executions).sum

/-- What all jobs hold. -/
def runsHeld (runs : List WorkflowRun) : Multiset (ℕ × Allocation) :=
  (runs.map WorkflowRun.held).sum

/-- What the qualifications that run hold. -/
def GpuChecks.held (checks : GpuChecks) : Multiset (ℕ × Allocation) :=
  ↑(checks.qualifying.map Qualification.member)

/-- What tasks that are to be launched hold. -/
def tasksHeld (tasks : List AdmitTask) : Multiset (ℕ × Allocation) :=
  (tasks.map fun task => (↑task.placement : Multiset (ℕ × Allocation))).sum

/-- What launched jobs hold before the launches are applied. -/
def outcomesHeld (outcomes : List LaunchOutcome) : Multiset (ℕ × Allocation) :=
  (outcomes.map fun outcome => executionsHeld outcome.executions).sum

/-- What a phase carries to its next section. -/
def Phase.held : Phase → Multiset (ℕ × Allocation)
  | .finishing todo ended => ↑((todo ++ ended).map Qualification.member)
  | .qualifying todo => ↑(todo.map ToQualify.member)
  | .launching tasks outcomes => tasksHeld tasks + outcomesHeld outcomes
  | _ => 0

@[simp] theorem Phase.held_idle : Phase.idle.held = 0 := rfl

/-- What is out. -/
def SchedulerState.held (s : SchedulerState) : Multiset (ℕ × Allocation) :=
  runsHeld s.daemon.runs + (s.checks.held + s.phase.held)

/-! ### What the jobs hold -/

/-- A change of some jobs that keeps a part of them keeps it for every job of the run. -/
theorem WorkflowRun.kept_updateAll {β : Type} (p : JobInstance → β) (run : WorkflowRun)
    {f : JobInstance → JobInstance} (hf : ∀ job, p (f job) = p job) {ids : List String} :
    ∀ job' ∈ (run.updateAll ids f).jobs, ∃ job ∈ run.jobs, p job' = p job := by
  unfold WorkflowRun.updateAll
  induction ids generalizing run with
  | nil => exact fun job hjob => ⟨job, hjob, rfl⟩
  | cons id ids ih =>
    intro job' hjob'
    obtain ⟨mid, hmid, heq⟩ :=
      ih { run with jobs := Keyed.modify JobInstance.jobId run.jobs id f } job' hjob'
    rcases Keyed.mem_modify.1 hmid with ⟨job, hjob, -, rfl⟩ | ⟨hjob, -⟩
    · exact ⟨job, hjob, heq.trans (hf job)⟩
    · exact ⟨mid, hjob, heq⟩

/-- Every job of the later runs has that part of a job of the earlier ones. -/
def JobsKeep {β : Type} (p : JobInstance → β) (runs runs' : List WorkflowRun) : Prop :=
  ∀ run' ∈ runs', ∀ job' ∈ run'.jobs, ∃ run ∈ runs, ∃ job ∈ run.jobs, p job' = p job

namespace JobsKeep

variable {β : Type} {p : JobInstance → β} {runs runs' : List WorkflowRun} {runId : String}

theorem map {g : WorkflowRun → WorkflowRun}
    (hg : ∀ run ∈ runs, ∀ job' ∈ (g run).jobs, ∃ job ∈ run.jobs, p job' = p job) :
    JobsKeep p runs (runs.map g) := by
  intro run' hrun' job' hjob'
  obtain ⟨run, hrun, rfl⟩ := List.mem_map.1 hrun'
  exact ⟨run, hrun, hg run hrun job' hjob'⟩

theorem advancePending (hp : ∀ job : JobInstance, p job.queue = p job) :
    JobsKeep p runs (advancePending runs).1 :=
  map fun run _ => run.kept_updateAll p hp

theorem cascadeSkipped {now : DateTime} (hp : ∀ job : JobInstance, p (job.skip now) = p job) :
    JobsKeep p runs (cascadeSkipped runs now).1 :=
  map fun run _ => run.kept_updateAll p hp

theorem cancelRun (hp : ∀ job : JobInstance, p { job with cancelling := true } = p job) :
    JobsKeep p runs (cancelRun runs runId) := by
  refine map fun run _ job' hjob' => ?_
  split at hjob'
  · obtain ⟨job, hjob, rfl⟩ := List.mem_map.1 hjob'
    refine ⟨job, hjob, ?_⟩
    split
    · exact hp job
    · rfl
  · exact ⟨job', hjob', rfl⟩

theorem perm (h : runs.Perm runs') : JobsKeep p runs runs' := fun run hrun job hjob =>
  ⟨run, h.mem_iff.2 hrun, job, hjob, rfl⟩

theorem reorderJobs {run : WorkflowRun} {jobs : List JobInstance}
    (hrun : findRun runs runId = some run) (hperm : run.jobs.Perm jobs) :
    JobsKeep p runs
      (Keyed.modify WorkflowRun.runId runs runId fun run => { run with jobs := jobs }) := by
  intro run' hrun' job hjob
  rcases Keyed.mem_modify.1 hrun' with ⟨_, _, _, rfl⟩ | ⟨hrun', -⟩
  · exact ⟨run, Keyed.mem_of_get? hrun, job, hperm.mem_iff.2 hjob, rfl⟩
  · exact ⟨run', hrun', job, hjob, rfl⟩

end JobsKeep

@[simp] theorem executionsHeld_nil : executionsHeld [] = 0 := rfl

@[simp] theorem outcomesHeld_nil : outcomesHeld [] = 0 := rfl

theorem outcomesHeld_cons (outcome : LaunchOutcome) (outcomes : List LaunchOutcome) :
    outcomesHeld (outcome :: outcomes) =
      executionsHeld outcome.executions + outcomesHeld outcomes := by
  rw [outcomesHeld, List.map_cons, List.sum_cons, outcomesHeld]

theorem tasksHeld_cons (task : AdmitTask) (tasks : List AdmitTask) :
    tasksHeld (task :: tasks) = ↑task.placement + tasksHeld tasks := by
  rw [tasksHeld, List.map_cons, List.sum_cons, tasksHeld]

/-- A run whose jobs keep their executions holds what it held. -/
theorem WorkflowRun.held_map {run : WorkflowRun} {f : JobInstance → JobInstance}
    (hf : ∀ job, (f job).executions = job.executions) :
    WorkflowRun.held { run with jobs := run.jobs.map f } = run.held := by
  unfold WorkflowRun.held
  rw [List.map_map]
  exact congrArg List.sum (List.map_congr_left fun job _ => by rw [Function.comp_apply, hf])

theorem WorkflowRun.held_updateAll {run : WorkflowRun} {f : JobInstance → JobInstance}
    (hf : ∀ job, (f job).executions = job.executions) (ids : List String) :
    (run.updateAll ids f).held = run.held := by
  unfold WorkflowRun.updateAll
  induction ids generalizing run with
  | nil => rfl
  | cons id ids ih =>
    rw [List.foldl_cons]
    have hfirst : WorkflowRun.held { run with
        jobs := Keyed.modify JobInstance.jobId run.jobs id f } = run.held :=
      WorkflowRun.held_map fun job => by split <;> simp [hf]
    exact ih.trans hfirst

theorem runsHeld_map {runs : List WorkflowRun} {g : WorkflowRun → WorkflowRun}
    (hg : ∀ run, (g run).held = run.held) : runsHeld (runs.map g) = runsHeld runs := by
  unfold runsHeld
  rw [List.map_map]
  exact congrArg List.sum (List.map_congr_left fun run _ => hg run)

theorem runsHeld_advancePending (runs : List WorkflowRun) :
    runsHeld (advancePending runs).1 = runsHeld runs :=
  runsHeld_map fun _ => WorkflowRun.held_updateAll (f := JobInstance.queue) (fun _ => rfl) _

theorem runsHeld_cascadeSkipped (runs : List WorkflowRun) (now : DateTime) :
    runsHeld (cascadeSkipped runs now).1 = runsHeld runs :=
  runsHeld_map fun _ => WorkflowRun.held_updateAll (f := JobInstance.skip now) (fun _ => rfl) _

theorem runsHeld_cancelRun (runs : List WorkflowRun) (runId : String) :
    runsHeld (cancelRun runs runId) = runsHeld runs :=
  runsHeld_map fun run => by
    split
    · exact WorkflowRun.held_map fun job => by split <;> rfl
    · rfl

theorem runsHeld_perm {runs runs' : List WorkflowRun} (h : runs.Perm runs') :
    runsHeld runs' = runsHeld runs := ((h.map _).sum_eq).symm

theorem WorkflowRun.held_perm {run : WorkflowRun} {jobs : List JobInstance}
    (h : run.jobs.Perm jobs) : WorkflowRun.held { run with jobs := jobs } = run.held :=
  ((h.map _).sum_eq).symm

theorem runsHeld_reorderJobs {runs : List WorkflowRun} (hnodup : (runs.map WorkflowRun.runId).Nodup)
    {runId : String} {run : WorkflowRun} {jobs : List JobInstance}
    (hrun : findRun runs runId = some run) (hperm : run.jobs.Perm jobs) :
    runsHeld (Keyed.modify WorkflowRun.runId runs runId fun run => { run with jobs := jobs }) =
      runsHeld runs := by
  obtain ⟨rest, hsum, hsum'⟩ := Keyed.sum_modify (f := fun run => { run with jobs := jobs })
    WorkflowRun.held hnodup hrun
  unfold runsHeld
  rw [hsum, hsum', WorkflowRun.held_perm hperm]

/-- A new run holds nothing. -/
theorem WorkflowRun.held_new {spec : WorkflowSpec} (h : Dag.Accepts spec) (runId : String)
    (runSeq jobSeq : ℕ) (now : DateTime) :
    (WorkflowRun.new runId runSeq spec jobSeq now).held = 0 := by
  unfold WorkflowRun.held
  rw [WorkflowRun.jobs_new (Dag.exists_topological h).1, List.map_map]
  exact List.sum_eq_zero fun held hheld => by
    obtain ⟨entry, -, rfl⟩ := List.mem_map.1 hheld
    rfl

/-- What is out changes by the change of the one job. -/
theorem runsHeld_updateJob {runs : List WorkflowRun} (hkeys : KeysNodup runs) {key : JobKey}
    {job : JobInstance} (hjob : findJob runs key = some job) (f : JobInstance → JobInstance) :
    ∃ rest, runsHeld runs = executionsHeld job.executions + rest ∧
      runsHeld (updateJob runs key f) = executionsHeld (f job).executions + rest := by
  obtain ⟨run, hrun, hj⟩ := findJob_eq_some.1 hjob
  obtain ⟨restRuns, hruns, hruns'⟩ := Keyed.sum_modify
    (f := fun run => { run with jobs := Keyed.modify JobInstance.jobId run.jobs key.2 f })
    WorkflowRun.held hkeys.runIds hrun
  obtain ⟨restJobs, hjobs, hjobs'⟩ := Keyed.sum_modify (f := f)
    (fun job : JobInstance => executionsHeld job.executions)
    (hkeys.jobIds run (Keyed.mem_of_get? hrun)) hj
  refine ⟨restJobs + restRuns, ?_, ?_⟩
  · unfold runsHeld
    rw [hruns, WorkflowRun.held, hjobs, add_assoc]
  · unfold runsHeld updateJob
    rw [hruns', WorkflowRun.held, hjobs', add_assoc]

/-- Every execution of a job is out. -/
theorem executionsHeld_le {runs : List WorkflowRun} (hkeys : KeysNodup runs) {key : JobKey}
    {job : JobInstance} (hjob : findJob runs key = some job) :
    executionsHeld job.executions ≤ runsHeld runs := by
  obtain ⟨rest, hsum, -⟩ := runsHeld_updateJob hkeys hjob id
  exact hsum ▸ Multiset.le_add_right _ _

/-- The executions of a launch are on the nodes it was placed on. -/
theorem AdmitTask.members_outcome {task : AdmitTask}
    {results : List (Except ExecutorError JobHandle)}
    (hlen : results.length = task.placement.length) :
    (task.outcome results).executions.map Execution.member = task.placement := by
  rw [AdmitTask.outcome, List.map_map]
  exact List.map_fst_zip hlen.ge

theorem AdmitTask.held_outcome {task : AdmitTask}
    {results : List (Except ExecutorError JobHandle)}
    (hlen : results.length = task.placement.length) :
    executionsHeld (task.outcome results).executions = ↑task.placement := by
  rw [executionsHeld, AdmitTask.members_outcome hlen]

end Roster
