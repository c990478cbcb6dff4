import Roster.LTS.Basic
import Roster.Scheduler.RunMachine

/-!
# A run never gets stuck

`RunStep` is a run as the scheduler's first two phases and the outcomes of its started jobs drive
it.  When no job is Queued or Running and neither phase changes anything, every job has ended, and
the skipped jobs are exactly those with a transitive dependency that ended badly on its own
(`RunStep.never_stuck`).
-/

namespace Roster

/-! ### What the two phases do to a job -/

/-- Applying an idempotent change to jobs one after the other is applying it to each of them. -/
theorem foldl_modify_eq_map {f : JobInstance → JobInstance} (hid : ∀ job, (f job).jobId = job.jobId)
    (hf : ∀ job, f (f job) = f job) (ids : List String) (jobs : List JobInstance) :
    ids.foldl (fun jobs id => Keyed.modify JobInstance.jobId jobs id f) jobs =
      jobs.map fun job => if job.jobId ∈ ids then f job else job := by
  induction ids generalizing jobs with
  | nil => simp
  | cons id ids ih =>
    rw [List.foldl_cons, ih, Keyed.modify, List.map_map]
    refine List.map_congr_left fun job _ => ?_
    by_cases h : job.jobId = id
    · simp [h, hid, hf]
    · simp [h]

namespace WorkflowRun

variable {run : WorkflowRun} {ids : List String} {f : JobInstance → JobInstance}

theorem job?_updateAll (hid : ∀ job, (f job).jobId = job.jobId) (hf : ∀ job, f (f job) = f job)
    (id : String) : (run.updateAll ids f).job? id =
      (run.job? id).map fun job => if id ∈ ids then f job else job := by
  unfold updateAll job?
  dsimp only
  have hmap : ∀ job ∈ run.jobs, (if job.jobId ∈ ids then f job else job).jobId = job.jobId :=
    fun job _ => by split <;> simp [hid]
  rw [foldl_modify_eq_map hid hf, Keyed.get?_map hmap]
  cases h : Keyed.get? JobInstance.jobId run.jobs id with
  | none => rfl
  | some job => rw [Option.map_some, Option.map_some, Keyed.key_of_get? h]

theorem map_jobId_updateAll (hid : ∀ job, (f job).jobId = job.jobId)
    (hf : ∀ job, f (f job) = f job) :
    ((run.updateAll ids f).jobs.map JobInstance.jobId) = run.jobs.map JobInstance.jobId := by
  unfold updateAll
  dsimp only
  rw [foldl_modify_eq_map hid hf, List.map_map]
  refine List.map_congr_left fun job _ => ?_
  rw [Function.comp_apply]
  split <;> simp [hid]

theorem mem_toQueue (hnodup : (run.jobs.map JobInstance.jobId).Nodup) {id : String}
    {job : JobInstance} (hjob : run.job? id = some job) :
    id ∈ run.toQueue ↔ job.state = .pending ∧ run.depsSucceeded job = true := by
  simp only [toQueue, List.mem_map, List.mem_filter, Bool.and_eq_true, decide_eq_true_eq]
  constructor
  · rintro ⟨other, ⟨hmem, hpending, hdeps⟩, hid⟩
    obtain rfl := Option.some.inj (((Keyed.get?_eq_some hnodup).2 ⟨hmem, hid⟩).symm.trans hjob)
    exact ⟨hpending, hdeps⟩
  · rintro ⟨hpending, hdeps⟩
    exact ⟨job, ⟨Keyed.mem_of_get? hjob, hpending, hdeps⟩, Keyed.key_of_get? hjob⟩

theorem mem_toSkip (hnodup : (run.jobs.map JobInstance.jobId).Nodup) {id : String}
    {job : JobInstance} (hjob : run.job? id = some job) :
    id ∈ run.toSkip ↔ (job.state = .pending ∨ job.state = .queued) ∧ run.depBad job = true := by
  simp only [toSkip, List.mem_map, List.mem_filter, Bool.and_eq_true, decide_eq_true_eq]
  constructor
  · rintro ⟨other, ⟨hmem, hstate, hdeps⟩, hid⟩
    obtain rfl := Option.some.inj (((Keyed.get?_eq_some hnodup).2 ⟨hmem, hid⟩).symm.trans hjob)
    exact ⟨hstate, hdeps⟩
  · rintro ⟨hstate, hdeps⟩
    exact ⟨job, ⟨Keyed.mem_of_get? hjob, hstate, hdeps⟩, Keyed.key_of_get? hjob⟩

end WorkflowRun

variable {out : JobState → JobState → Prop} {run run' : WorkflowRun}

/-- Changing some jobs of the run at once, each by a move. -/
theorem RunMoved.updateAll {ids : List String} {f : JobInstance → JobInstance}
    (hid : ∀ job, (f job).jobId = job.jobId) (hspec : ∀ job, (f job).spec = job.spec)
    (hf : ∀ job, f (f job) = f job)
    (hmove : ∀ id ∈ ids, ∀ job, run.job? id = some job → StateMove out run job (f job).state) :
    RunMoved out run (run.updateAll ids f) := by
  refine ⟨rfl, rfl, fun h => by rwa [WorkflowRun.map_jobId_updateAll hid hf], fun id => ?_⟩
  rw [WorkflowRun.job?_updateAll hid hf]
  cases hjob : run.job? id with
  | none => exact .inl ⟨rfl, rfl⟩
  | some job =>
    refine .inr ⟨job, _, rfl, rfl, by split <;> simp [hspec], ?_⟩
    split
    · next hmem => exact hmove id hmem job hjob
    · exact .stay

theorem RunMoved.advancePending (hnodup : (run.jobs.map JobInstance.jobId).Nodup) :
    RunMoved out run run.advancePending :=
  .updateAll (fun _ => rfl) (fun _ => rfl) (fun _ => rfl) fun _ hid _ hjob =>
    have ⟨hpending, hdeps⟩ := (WorkflowRun.mem_toQueue hnodup hjob).1 hid
    .queue hpending hdeps

theorem RunMoved.cascadeSkipped (hnodup : (run.jobs.map JobInstance.jobId).Nodup)
    (now : DateTime) : RunMoved out run (run.cascadeSkipped now) :=
  .updateAll (fun _ => rfl) (fun _ => rfl) (fun _ => rfl) fun _ hid _ hjob =>
    have ⟨hstate, hdeps⟩ := (WorkflowRun.mem_toSkip hnodup hjob).1 hid
    .skip hstate hdeps

theorem RunMoved.modify {jobId : String} {f : JobInstance → JobInstance}
    (hid : ∀ job, (f job).jobId = job.jobId) (hspec : ∀ job, (f job).spec = job.spec)
    (hout : ∀ job, run.job? jobId = some job → StateMove out run job (f job).state) :
    RunMoved out run { run with jobs := Keyed.modify JobInstance.jobId run.jobs jobId f } := by
  have hkey : ∀ job : JobInstance, job.jobId = jobId → (f job).jobId = jobId :=
    fun job h => (hid job).trans h
  refine ⟨rfl, rfl, fun h => by rwa [Keyed.map_key_modify hkey], fun id => ?_⟩
  unfold WorkflowRun.job? at hout ⊢
  by_cases heq : id = jobId
  · subst heq
    rw [Keyed.get?_modify_self hkey]
    cases hjob : Keyed.get? JobInstance.jobId run.jobs id with
    | none => exact .inl ⟨rfl, rfl⟩
    | some job => exact .inr ⟨job, f job, rfl, rfl, hspec job, hout job hjob⟩
  · dsimp only
    rw [Keyed.get?_modify_ne hkey heq]
    cases hjob : Keyed.get? JobInstance.jobId run.jobs id with
    | none => exact .inl ⟨rfl, rfl⟩
    | some job => exact .inr ⟨job, job, rfl, rfl, rfl, .stay⟩

/-! ### A run in which nothing moves -/

/-- A job that ended without success of itself, not because of another job. -/
def JobState.isFailure (state : JobState) : Bool := state.isBad && decide (state ≠ .skipped)

/-- `dep` is a dependency of `id`, through one or more steps. -/
def WorkflowSpec.DependsOn (spec : WorkflowSpec) (id dep : String) : Prop :=
  Relation.TransGen (fun dep id => dep ∈ spec.depsOf id) dep id

/-- The dependencies of a job of the run are those of its document. -/
theorem RunInv.dependsOn (hinv : RunInv run) (hids : run.spec.ids.Nodup) {id : String}
    {job : JobInstance} (hjob : run.job? id = some job) :
    job.spec.dependsOn = run.spec.depsOf id := by
  obtain ⟨hmem, rfl⟩ := hinv.job id job hjob
  exact (Dag.depsOf_eq hids hmem).symm

/-- With nothing in flight and nothing to queue or to skip, every job has ended. -/
theorem RunInv.terminal (hinv : RunInv run) (hspec : Dag.Accepts run.spec)
    (hidle : ∀ job ∈ run.jobs, job.state ≠ .queued ∧ job.state ≠ .running)
    (hqueue : run.toQueue = []) (hskip : run.toSkip = []) :
    ∀ job ∈ run.jobs, job.state.isTerminal = true := by
  obtain ⟨hids, hknown, order, hperm, htopo⟩ := Dag.exists_topological hspec
  have hall : ∀ id ∈ order, ∀ job, run.job? id = some job → job.state.isTerminal = true := by
    refine htopo.induct fun id _ hdeps job hjob => ?_
    by_contra hterm
    have hpending : job.state = .pending := by
      have hne := hidle job (Keyed.mem_of_get? hjob)
      cases hs : job.state <;> simp_all [JobState.isTerminal]
    have hdepsOf := hinv.dependsOn hids hjob
    have hended : ∀ dep ∈ job.spec.dependsOn, ∃ state, run.stateOf dep = some state ∧
        state.isTerminal = true := by
      intro dep hdep
      obtain ⟨hmem, -⟩ := hinv.job id job hjob
      obtain ⟨depJob, hdepJob⟩ := hinv.total dep (hknown job.spec hmem dep hdep)
      exact ⟨depJob.state, by simp [WorkflowRun.stateOf, hdepJob],
        hdeps dep (hdepsOf ▸ hdep) depJob hdepJob⟩
    -- a pending job whose dependencies are all done would be skipped or queued
    by_cases hbad : run.depBad job = true
    · have hmem := (WorkflowRun.mem_toSkip hinv.nodup hjob).2 ⟨.inl hpending, hbad⟩
      rw [hskip] at hmem
      cases hmem
    · have hsucc : run.depsSucceeded job = true := by
        rw [WorkflowRun.depsSucceeded_iff]
        intro dep hdep
        obtain ⟨state, hstate, hst⟩ := hended dep hdep
        have hgood : state.isBad = false := by
          rw [WorkflowRun.depBad_iff] at hbad
          push Not at hbad
          simpa using hbad dep hdep state hstate
        rw [hstate]
        cases state <;> simp_all [JobState.isTerminal, JobState.isBad]
      have hmem := (WorkflowRun.mem_toQueue hinv.nodup hjob).2 ⟨hpending, hsucc⟩
      rw [hqueue] at hmem
      cases hmem
  intro job hmem
  have hjob := Keyed.get?_of_mem hinv.nodup hmem
  obtain ⟨hspecMem, hid⟩ := hinv.job job.jobId job hjob
  exact hall job.jobId (hperm.mem_iff.2 (hid ▸ List.mem_map_of_mem hspecMem)) job hjob

/-- A skipped job has a transitive dependency that failed of itself. -/
theorem RunInv.failure_of_skipped (hinv : RunInv run) (hspec : Dag.Accepts run.spec) {id : String}
    (hid : run.stateOf id = some .skipped) :
    ∃ dep state, run.spec.DependsOn id dep ∧ run.stateOf dep = some state ∧
      state.isFailure = true := by
  obtain ⟨hids, -, order, hperm, htopo⟩ := Dag.exists_topological hspec
  have hall : ∀ id ∈ order, run.stateOf id = some .skipped → ∃ dep state,
      run.spec.DependsOn id dep ∧ run.stateOf dep = some state ∧ state.isFailure = true := by
    refine htopo.induct fun id _ ih hskipped => ?_
    obtain ⟨job, hjob, hstate⟩ : ∃ job, run.job? id = some job ∧ job.state = .skipped := by
      simpa [WorkflowRun.stateOf] using hskipped
    obtain ⟨dep, hdep, state, hdepState, hbad⟩ :=
      WorkflowRun.depBad_iff.1 (hinv.skipped id job hjob hstate)
    rw [hinv.dependsOn hids hjob] at hdep
    by_cases hcause : state = .skipped
    · -- the dependency was skipped itself: what it was skipped for is further up
      obtain ⟨cause, state', hpath, hcauseState, hfail⟩ := ih dep hdep (hcause ▸ hdepState)
      exact ⟨cause, state', hpath.tail hdep, hcauseState, hfail⟩
    · exact ⟨dep, state, .single hdep, hdepState, by simp [JobState.isFailure, hbad, hcause]⟩
  obtain ⟨job, hjob, -⟩ : ∃ job, run.job? id = some job ∧ job.state = .skipped := by
    simpa [WorkflowRun.stateOf] using hid
  obtain ⟨hmem, hjobId⟩ := hinv.job id job hjob
  exact hall id (hperm.mem_iff.2 (hjobId ▸ List.mem_map_of_mem hmem)) hid

/-- Once every job has ended, what depends on a job that did not succeed was skipped. -/
theorem RunInv.skipped_of_failure (hinv : RunInv run) (hids : run.spec.ids.Nodup)
    (hterm : ∀ job ∈ run.jobs, job.state.isTerminal = true) {id dep : String} {state : JobState}
    (hpath : run.spec.DependsOn id dep) (hdep : run.stateOf dep = some state)
    (hbad : state ≠ .succeeded) (hid : id ∈ run.spec.ids) : run.stateOf id = some .skipped := by
  -- one step: a job with a dependency that did not succeed never started
  have hone : ∀ {dep id : String} {state : JobState}, dep ∈ run.spec.depsOf id →
      run.stateOf dep = some state → state ≠ .succeeded → id ∈ run.spec.ids →
      run.stateOf id = some .skipped := by
    intro dep id state hmem hstate hne hid
    obtain ⟨job, hjob⟩ := hinv.total id hid
    have hnot : run.depsSucceeded job = false := by
      rw [Bool.eq_false_iff, ne_eq, WorkflowRun.depsSucceeded_iff, hinv.dependsOn hids hjob]
      intro hall
      have hsucc := hall dep hmem
      rw [hstate, Option.some.injEq] at hsucc
      exact hne hsucc
    have hstarted : job.state.hasStarted = false := by
      rw [Bool.eq_false_iff]
      intro hst
      rw [hinv.started id job hjob hst] at hnot
      cases hnot
    have hended := hterm job (Keyed.mem_of_get? hjob)
    have hskipped : job.state = .skipped := by
      cases hs : job.state <;> simp_all [JobState.isTerminal, JobState.hasStarted]
    simp [WorkflowRun.stateOf, hjob, hskipped]
  have hidOf : ∀ {dep id : String}, dep ∈ run.spec.depsOf id → id ∈ run.spec.ids := by
    intro dep id hmem
    unfold WorkflowSpec.depsOf at hmem
    cases hget : Keyed.get? JobSpec.id run.spec.jobs id with
    | none => simp [hget] at hmem
    | some jobSpec =>
      exact Keyed.key_of_get? hget ▸ List.mem_map_of_mem (Keyed.mem_of_get? hget)
  induction hpath with
  | single hmem => exact hone hmem hdep hbad hid
  | @tail mid id hpath hmem ih =>
    have hmid : mid ∈ run.spec.ids := by
      cases hpath with
      | single hmem' => exact hidOf hmem'
      | tail _ hmem' => exact hidOf hmem'
    exact hone hmem (ih hmid) (by decide) hid

/-! ### Runs of the first two phases and of outcomes -/

/-- One step of a run: a phase, or a started job moving on. -/
inductive RunStep (run : WorkflowRun) : WorkflowRun → Prop
  | advancePending : RunStep run run.advancePending
  | cascadeSkipped (now : DateTime) : RunStep run (run.cascadeSkipped now)
  | outcome (jobId : String) (f : JobInstance → JobInstance) :
      (∀ job, (f job).jobId = job.jobId ∧ (f job).spec = job.spec) →
      (∀ job, run.job? jobId = some job → Outcome job.state (f job).state) →
      RunStep run { run with jobs := Keyed.modify JobInstance.jobId run.jobs jobId f }

theorem RunStep.moved (hnodup : (run.jobs.map JobInstance.jobId).Nodup) (h : RunStep run run') :
    RunMoved Outcome run run' := by
  cases h with
  | advancePending => exact .advancePending hnodup
  | cascadeSkipped now => exact .cascadeSkipped hnodup now
  | outcome jobId f hkeep hout =>
    exact .modify (fun job => (hkeep job).1) (fun job => (hkeep job).2)
      fun job hjob => .outcome (hout job hjob)

/-- Runs of a workflow from its start. -/
def RunStep.lts : LTS WorkflowRun Unit where
  step run _ run' := RunStep run run'

theorem RunStep.inv {spec : WorkflowSpec} (h : Dag.Accepts spec) {runId : String}
    {runSeq jobSeqStart : ℕ} {now : DateTime}
    (hreach : RunStep.lts.Reach (.new runId runSeq spec jobSeqStart now) run) :
    RunInv run ∧ run.spec = spec := by
  refine hreach.invariant (I := fun run => RunInv run ∧ run.spec = spec) ⟨.new h _ _ _ _, rfl⟩ ?_
  rintro run _ run' - ⟨hinv, hspec⟩ hstep
  have hmoved := RunStep.moved hinv.nodup hstep
  exact ⟨hinv.moved (fun _ _ => id) hmoved, hmoved.spec.trans hspec⟩

/-- A phase that would move the state of every job it picks picks none if it changes nothing. -/
theorem eq_nil_of_updateAll_eq {ids : List String} {f : JobInstance → JobInstance}
    (hid : ∀ job, (f job).jobId = job.jobId) (hf : ∀ job, f (f job) = f job)
    (hjob : ∀ id ∈ ids, ∃ job, run.job? id = some job ∧ (f job).state ≠ job.state)
    (h : run.updateAll ids f = run) : ids = [] := by
  refine List.eq_nil_iff_forall_not_mem.2 fun id hmem => ?_
  obtain ⟨job, hget, hne⟩ := hjob id hmem
  have hsame := congrArg (WorkflowRun.job? · id) h
  rw [WorkflowRun.job?_updateAll hid hf, hget, Option.map_some, if_pos hmem,
    Option.some.injEq] at hsame
  exact hne (congrArg JobInstance.state hsame)

theorem toQueue_eq_nil (hnodup : (run.jobs.map JobInstance.jobId).Nodup)
    (h : run.advancePending = run) : run.toQueue = [] := by
  refine eq_nil_of_updateAll_eq (f := JobInstance.queue) (fun _ => rfl) (fun _ => rfl)
    (fun id hid => ?_) h
  obtain ⟨job, hmem, rfl⟩ := List.mem_map.1 hid
  have hjob : run.job? job.jobId = some job :=
    Keyed.get?_of_mem hnodup (List.mem_filter.1 hmem).1
  refine ⟨job, hjob, ?_⟩
  rw [((WorkflowRun.mem_toQueue hnodup hjob).1 hid).1]
  exact JobState.noConfusion

theorem toSkip_eq_nil (hnodup : (run.jobs.map JobInstance.jobId).Nodup) {now : DateTime}
    (h : run.cascadeSkipped now = run) : run.toSkip = [] := by
  refine eq_nil_of_updateAll_eq (f := JobInstance.skip now) (fun _ => rfl) (fun _ => rfl)
    (fun id hid => ?_) h
  obtain ⟨job, hmem, rfl⟩ := List.mem_map.1 hid
  have hjob : run.job? job.jobId = some job :=
    Keyed.get?_of_mem hnodup (List.mem_filter.1 hmem).1
  refine ⟨job, hjob, ?_⟩
  rcases ((WorkflowRun.mem_toSkip hnodup hjob).1 hid).1 with hs | hs <;> rw [hs] <;>
    exact JobState.noConfusion

/-- **A run never gets stuck.**  If no job is in flight and neither phase changes anything, every
job has ended, and a job was skipped exactly when a transitive dependency failed of itself. -/
theorem RunStep.never_stuck {spec : WorkflowSpec} (h : Dag.Accepts spec) {runId : String}
    {runSeq jobSeqStart : ℕ} {start : DateTime} (now : DateTime)
    (hreach : RunStep.lts.Reach (.new runId runSeq spec jobSeqStart start) run)
    (hidle : ∀ job ∈ run.jobs, job.state ≠ .queued ∧ job.state ≠ .running)
    (hpending : run.advancePending = run) (hcascade : run.cascadeSkipped now = run) :
    (∀ id ∈ spec.ids, ∃ state, run.stateOf id = some state ∧ state.isTerminal = true) ∧
      ∀ id ∈ spec.ids, run.stateOf id = some .skipped ↔ ∃ dep state, spec.DependsOn id dep ∧
        run.stateOf dep = some state ∧
        (state = .failed ∨ state = .cancelled ∨ state = .timedOut ∨ state = .interrupted) := by
  obtain ⟨hinv, rfl⟩ := RunStep.inv h hreach
  obtain ⟨hids, -⟩ := Dag.exists_topological h
  have hterm := hinv.terminal h hidle (toQueue_eq_nil hinv.nodup hpending)
    (toSkip_eq_nil hinv.nodup hcascade)
  have hfailure : ∀ state : JobState, state.isFailure = true ↔ state = .failed ∨
      state = .cancelled ∨ state = .timedOut ∨ state = .interrupted := by
    intro state; cases state <;> decide
  refine ⟨fun id hid => ?_, fun id hid => ⟨fun hskipped => ?_, ?_⟩⟩
  · obtain ⟨job, hjob⟩ := hinv.total id hid
    exact ⟨job.state, by simp [WorkflowRun.stateOf, hjob], hterm job (Keyed.mem_of_get? hjob)⟩
  · obtain ⟨dep, state, hpath, hstate, hfail⟩ := hinv.failure_of_skipped h hskipped
    exact ⟨dep, state, hpath, hstate, (hfailure state).1 hfail⟩
  · rintro ⟨dep, state, hpath, hstate, hfail⟩
    refine hinv.skipped_of_failure hids hterm hpath hstate ?_ hid
    rintro rfl
    simp at hfail

/-- Two jobs, the second after the first. -/
def twoJobs : WorkflowSpec :=
  ⟨"two", [{ id := "a", command := "false" }, { id := "b", command := "true", dependsOn := ["a"] }]⟩

/-- Its run once the first job failed. -/
def twoJobsFailed : WorkflowRun :=
  let queued := (WorkflowRun.new "r" 0 twoJobs 0 0).advancePending
  let failed := { queued with
    jobs := Keyed.modify JobInstance.jobId queued.jobs "a" fun job => job.fail 1 }
  failed.cascadeSkipped 2

/-- There the second job was skipped because something it depends on failed. -/
theorem twoJobsFailed_skipped : ∃ dep state, twoJobs.DependsOn "b" dep ∧
    twoJobsFailed.stateOf dep = some state ∧
    (state = .failed ∨ state = .cancelled ∨ state = .timedOut ∨ state = .interrupted) := by
  have hreach : RunStep.lts.Reach (.new "r" 0 twoJobs 0 0) twoJobsFailed :=
    ((LTS.Reach.refl.tail (l := ()) RunStep.advancePending).tail (l := ())
      (RunStep.outcome "a" (fun job => job.fail 1) (fun _ => ⟨rfl, rfl⟩) fun job hjob => by
        obtain rfl := Option.some.inj hjob
        exact ⟨.inl rfl, rfl⟩)).tail (l := ()) (RunStep.cascadeSkipped 2)
  exact ((RunStep.never_stuck ⟨twoJobs.jobs, .refl _, by decide⟩ 3 hreach (by decide)
    (by decide) (by decide)).2 "b" (by decide)).1 (by decide)

end Roster
