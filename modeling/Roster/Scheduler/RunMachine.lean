import Roster.Scheduler.Tick
import Roster.Workflow.Dag

/-!
# The state machine of one run

What every change to a run has in common, whoever makes it: a job stays, is queued once its
dependencies succeeded, is skipped once one of them ended badly, or had started and moves on
(`StateMove`).  From this alone a started job has only succeeded dependencies and a skipped job has
a bad one (`RunInv`), and a run in which nothing can move is over (`RunInv.over`): dependencies are
acyclic, so the argument goes along a topological listing of the jobs.
-/

namespace Roster

/-! ### Moves -/

/-- The job has been queued, whatever became of it then. -/
def JobState.hasStarted : JobState → Bool
  | .queued | .running | .succeeded | .failed | .cancelled | .timedOut | .interrupted => true
  | .pending | .skipped => false

/-- Where a started job may go: anywhere but back. -/
def Outcome (state state' : JobState) : Prop :=
  (state = .queued ∨ state = .running) ∧ state'.hasStarted = true

/-- What can become of a job's state; `out` says where a started job may go. -/
inductive StateMove (out : JobState → JobState → Prop) (run : WorkflowRun) (job : JobInstance) :
    JobState → Prop
  | stay : StateMove out run job job.state
  | queue : job.state = .pending → run.depsSucceeded job = true → StateMove out run job .queued
  | skip : job.state = .pending ∨ job.state = .queued → run.depBad job = true →
      StateMove out run job .skipped
  | outcome {state' : JobState} : out job.state state' → StateMove out run job state'

/-- The run keeps its jobs, each of which makes at most one move. -/
structure RunMoved (out : JobState → JobState → Prop) (run run' : WorkflowRun) : Prop where
  runId : run'.runId = run.runId
  spec : run'.spec = run.spec
  nodup : (run.jobs.map JobInstance.jobId).Nodup → (run'.jobs.map JobInstance.jobId).Nodup
  job : ∀ id, (run.job? id = none ∧ run'.job? id = none) ∨ ∃ job job', run.job? id = some job ∧
    run'.job? id = some job' ∧ job'.spec = job.spec ∧ StateMove out run job job'.state

section Moves

variable {out : JobState → JobState → Prop} {run run' : WorkflowRun} {job : JobInstance}

theorem RunMoved.refl (run : WorkflowRun) : RunMoved out run run :=
  ⟨rfl, rfl, id, fun id => by
    cases h : run.job? id with
    | none => exact .inl ⟨rfl, rfl⟩
    | some job => exact .inr ⟨job, job, rfl, rfl, rfl, .stay⟩⟩

/-- A terminal job stays as it is, in its state. -/
theorem StateMove.eq_of_isTerminal (himp : ∀ s s', out s s' → Outcome s s') {state' : JobState}
    (h : StateMove out run job state') (hterm : job.state.isTerminal = true) :
    state' = job.state := by
  cases h with
  | stay => rfl
  | queue hpending _ => rw [hpending] at hterm; cases hterm
  | skip hstate _ => rcases hstate with hs | hs <;> rw [hs] at hterm <;> cases hterm
  | outcome hout => rcases (himp _ _ hout).1 with hs | hs <;> rw [hs] at hterm <;> cases hterm

theorem RunMoved.stateOf_of_isTerminal (himp : ∀ s s', out s s' → Outcome s s')
    (h : RunMoved out run run') {id : String} {state : JobState}
    (hstate : run.stateOf id = some state) (hterm : state.isTerminal = true) :
    run'.stateOf id = some state := by
  rcases h.job id with ⟨hnone, -⟩ | ⟨job, job', hj, hj', -, hmove⟩
  · simp [WorkflowRun.stateOf, hnone] at hstate
  · obtain rfl : job.state = state := by simpa [WorkflowRun.stateOf, hj] using hstate
    simpa [WorkflowRun.stateOf, hj'] using hmove.eq_of_isTerminal himp hterm

theorem JobState.isTerminal_of_isBad {state : JobState} (h : state.isBad = true) :
    state.isTerminal = true := by
  cases state <;> first | rfl | cases h

theorem WorkflowRun.depsSucceeded_iff : run.depsSucceeded job = true ↔
    ∀ dep ∈ job.spec.dependsOn, run.stateOf dep = some .succeeded := by
  simp [WorkflowRun.depsSucceeded]

theorem WorkflowRun.depBad_iff : run.depBad job = true ↔
    ∃ dep ∈ job.spec.dependsOn, ∃ state, run.stateOf dep = some state ∧ state.isBad = true := by
  simp only [WorkflowRun.depBad, List.any_eq_true, Option.any_eq_true]

/-- Jobs whose dependencies all succeeded have none that ended badly. -/
theorem WorkflowRun.depBad_of_depsSucceeded (h : run.depsSucceeded job = true) :
    run.depBad job = false := by
  rw [Bool.eq_false_iff, ne_eq, WorkflowRun.depBad_iff]
  rintro ⟨dep, hdep, state, hstate, hbad⟩
  rw [WorkflowRun.depsSucceeded_iff.1 h dep hdep, Option.some.injEq] at hstate
  subst hstate
  cases hbad

end Moves

/-! ### The invariant -/

/-- The run's jobs are those of its document; a started job has only succeeded dependencies, and a
skipped job has one that ended badly. -/
structure RunInv (run : WorkflowRun) : Prop where
  nodup : (run.jobs.map JobInstance.jobId).Nodup
  job : ∀ id job, run.job? id = some job → job.spec ∈ run.spec.jobs ∧ job.spec.id = id
  total : ∀ id ∈ run.spec.ids, ∃ job, run.job? id = some job
  started : ∀ id job, run.job? id = some job → job.state.hasStarted = true →
    run.depsSucceeded job = true
  skipped : ∀ id job, run.job? id = some job → job.state = .skipped → run.depBad job = true

/-- What ended badly stays so, and a job that waits for it is still about to be skipped. -/
theorem RunMoved.depBad {out : JobState → JobState → Prop} {run run' : WorkflowRun}
    (himp : ∀ s s', out s s' → Outcome s s') (h : RunMoved out run run') {job job' : JobInstance}
    (hspec : job'.spec = job.spec) (hbad : run.depBad job = true) : run'.depBad job' = true := by
  rw [WorkflowRun.depBad_iff] at hbad ⊢
  obtain ⟨dep, hdep, state, hstate, hst⟩ := hbad
  exact ⟨dep, hspec ▸ hdep, state,
    h.stateOf_of_isTerminal himp hstate (JobState.isTerminal_of_isBad hst), hst⟩

/-- Every move keeps the invariant. -/
theorem RunInv.moved {out : JobState → JobState → Prop} {run run' : WorkflowRun}
    (himp : ∀ s s', out s s' → Outcome s s') (hinv : RunInv run) (h : RunMoved out run run') :
    RunInv run' := by
  have hdeps : ∀ {job job' : JobInstance}, job'.spec = job.spec →
      run.depsSucceeded job = true → run'.depsSucceeded job' = true := by
    intro job job' hspec hok
    rw [WorkflowRun.depsSucceeded_iff] at hok ⊢
    rw [hspec]
    exact fun dep hdep => h.stateOf_of_isTerminal himp (hok dep hdep) rfl
  -- the job a job of `run'` comes from
  have hfrom : ∀ id job', run'.job? id = some job' → ∃ job, run.job? id = some job ∧
      job'.spec = job.spec ∧ StateMove out run job job'.state := by
    intro id job' hj'
    rcases h.job id with ⟨-, hnone⟩ | ⟨job, job'', hj, hj'', hspec, hmove⟩
    · rw [hnone] at hj'; cases hj'
    · obtain rfl := Option.some.inj (hj''.symm.trans hj')
      exact ⟨job, hj, hspec, hmove⟩
  refine ⟨h.nodup hinv.nodup, fun id job' hj' => ?_, fun id hid => ?_, fun id job' hj' hst => ?_,
    fun id job' hj' hst => ?_⟩
  · obtain ⟨job, hj, hspec, -⟩ := hfrom id job' hj'
    rw [hspec, h.spec]
    exact hinv.job id job hj
  · obtain ⟨job, hj⟩ := hinv.total id (h.spec ▸ hid)
    rcases h.job id with ⟨hnone, -⟩ | ⟨-, job', -, hj', -⟩
    · rw [hnone] at hj; cases hj
    · exact ⟨job', hj'⟩
  · obtain ⟨job, hj, hspec, hmove⟩ := hfrom id job' hj'
    generalize hs' : job'.state = state' at hmove hst
    cases hmove with
    | stay => exact hdeps hspec (hinv.started id job hj hst)
    | queue _ hok => exact hdeps hspec hok
    | skip _ _ => cases hst
    | outcome hout =>
      refine hdeps hspec (hinv.started id job hj ?_)
      rcases (himp _ _ hout).1 with hs | hs <;> rw [hs] <;> rfl
  · obtain ⟨job, hj, hspec, hmove⟩ := hfrom id job' hj'
    generalize hs' : job'.state = state' at hmove hst
    cases hmove with
    | stay => exact h.depBad himp hspec (hinv.skipped id job hj hst)
    | queue _ _ => cases hst
    | skip _ hok => exact h.depBad himp hspec hok
    | outcome hout => have hstarted := (himp _ _ hout).2; rw [hst] at hstarted; cases hstarted

/-- The jobs of a fresh run of a workflow with distinct ids. -/
theorem WorkflowRun.jobs_new {spec : WorkflowSpec} (hids : spec.ids.Nodup) (runId : String)
    (runSeq jobSeqStart : ℕ) (now : DateTime) :
    (WorkflowRun.new runId runSeq spec jobSeqStart now).jobs =
      spec.jobs.zipIdx.map fun (jobSpec, i) => JobInstance.new jobSpec (jobSeqStart + i) := by
  -- every id is new when its turn comes, so each insert appends
  have happend : ∀ (todo : List (JobSpec × ℕ)) (done : List JobInstance),
      ((done.map JobInstance.jobId) ++ todo.map fun entry => entry.1.id).Nodup →
      todo.foldl (fun jobs (jobSpec, i) =>
        Keyed.insert JobInstance.jobId jobs (.new jobSpec (jobSeqStart + i))) done =
      done ++ todo.map fun (jobSpec, i) => JobInstance.new jobSpec (jobSeqStart + i) := by
    intro todo
    induction todo with
    | nil => simp
    | cons entry todo ih =>
      obtain ⟨jobSpec, i⟩ := entry
      intro done hnodup
      have hfresh : Keyed.get? JobInstance.jobId done jobSpec.id = none := by
        refine Keyed.get?_eq_none.2 fun job hjob hid => ?_
        exact (List.nodup_append.1 hnodup).2.2 _ (List.mem_map_of_mem hjob) jobSpec.id
          (by simp) hid
      have hins : Keyed.insert JobInstance.jobId done (.new jobSpec (jobSeqStart + i)) = _ :=
        Keyed.insert_of_fresh hfresh
      simp only [List.foldl_cons, List.map_cons, hins]
      rw [ih, List.append_assoc, List.singleton_append]
      simpa [JobInstance.new] using hnodup
  simp only [WorkflowRun.new]
  rw [happend _ [] ?_, List.nil_append]
  rw [List.map_nil, List.nil_append]
  have hmap : (spec.jobs.zipIdx.map fun entry => entry.1.id) = spec.ids := by
    have hfst := congrArg (List.map JobSpec.id) (List.zipIdx_map_fst 0 spec.jobs)
    rwa [List.map_map] at hfst
  rwa [hmap]

/-- A job of a fresh run is as `JobInstance::new` made it. -/
theorem WorkflowRun.job?_new_eq {spec : WorkflowSpec} (h : Dag.Accepts spec) {runId : String}
    {runSeq jobSeqStart : ℕ} {now : DateTime} {id : String} {job : JobInstance}
    (hjob : (WorkflowRun.new runId runSeq spec jobSeqStart now).job? id = some job) :
    ∃ jobSpec ∈ spec.jobs, ∃ jobSeq, jobSpec.id = id ∧ job = .new jobSpec jobSeq := by
  have hmem := Keyed.mem_of_get? hjob
  have hkey : job.jobId = id := Keyed.key_of_get? hjob
  rw [WorkflowRun.jobs_new (Dag.exists_topological h).1] at hmem
  obtain ⟨⟨jobSpec, i⟩, hentry, rfl⟩ := List.mem_map.1 hmem
  exact ⟨jobSpec, List.fst_mem_of_mem_zipIdx hentry, _, hkey, rfl⟩

/-- It is Pending and holds nothing. -/
theorem WorkflowRun.job?_new {spec : WorkflowSpec} (h : Dag.Accepts spec) {runId : String}
    {runSeq jobSeqStart : ℕ} {now : DateTime} {id : String} {job : JobInstance}
    (hjob : (WorkflowRun.new runId runSeq spec jobSeqStart now).job? id = some job) :
    job.state = .pending ∧ job.executions = [] := by
  obtain ⟨_, _, _, _, rfl⟩ := WorkflowRun.job?_new_eq h hjob
  exact ⟨rfl, rfl⟩

theorem RunInv.new {spec : WorkflowSpec} (h : Dag.Accepts spec) (runId : String)
    (runSeq jobSeqStart : ℕ) (now : DateTime) :
    RunInv (.new runId runSeq spec jobSeqStart now) := by
  obtain ⟨hids, -, -⟩ := Dag.exists_topological h
  have hjobs := WorkflowRun.jobs_new hids runId runSeq jobSeqStart now
  have hnodup : ((WorkflowRun.new runId runSeq spec jobSeqStart now).jobs.map
      JobInstance.jobId).Nodup := by
    rw [hjobs, List.map_map]
    have hmap : (JobInstance.jobId ∘ fun entry : JobSpec × ℕ =>
        JobInstance.new entry.1 (jobSeqStart + entry.2)) = JobSpec.id ∘ Prod.fst := rfl
    rw [hmap, ← List.map_map, List.zipIdx_map_fst]
    exact hids
  have hpending : ∀ id job, (WorkflowRun.new runId runSeq spec jobSeqStart now).job? id =
      some job → job.state = .pending ∧ job.spec ∈ spec.jobs ∧ job.spec.id = id := by
    intro id job hjob
    have hmem := Keyed.mem_of_get? hjob
    have hkey := Keyed.key_of_get? hjob
    rw [hjobs] at hmem
    obtain ⟨⟨jobSpec, i⟩, hentry, rfl⟩ := List.mem_map.1 hmem
    exact ⟨rfl, List.fst_mem_of_mem_zipIdx hentry, hkey⟩
  refine ⟨hnodup, fun id job hjob => (hpending id job hjob).2, fun id hid => ?_,
    fun id job hjob hst => ?_, fun id job hjob hst => ?_⟩
  · obtain ⟨jobSpec, hmem, rfl⟩ := List.mem_map.1 hid
    obtain ⟨i, hi, rfl⟩ := List.mem_iff_getElem.1 hmem
    have hjob : JobInstance.new spec.jobs[i] (jobSeqStart + i) ∈
        (WorkflowRun.new runId runSeq spec jobSeqStart now).jobs := by
      rw [hjobs]
      exact List.mem_map.2 ⟨(spec.jobs[i], i),
        List.mem_zipIdx_iff_getElem?.2 (List.getElem?_eq_getElem hi), rfl⟩
    exact ⟨_, Keyed.get?_of_mem hnodup hjob⟩
  · rw [(hpending id job hjob).1] at hst; cases hst
  · rw [(hpending id job hjob).1] at hst; cases hst

end Roster
