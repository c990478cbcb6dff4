import Roster.Scheduler.JobStep

/-!
# The jobs that have not ended

How many jobs have not ended is what a tick works down (`unfinished`).  Only a submit adds one;
every other step leaves those that there are, or ends some (`Step.unfinished_subset`).  What a job
does next depends on its state, its description and the states of what it waits for, which `workIn`
shows for all jobs; steps that decide nothing about jobs leave it alone (`Step.workIn_kept`).
-/

namespace Roster

variable {cfg : Config} {s s' : SchedulerState} {label : Label} {runs runs' : List WorkflowRun}
  {key : JobKey}

/-! ### Counting them -/

/-- The jobs that have not ended. -/
def unfinished (runs : List WorkflowRun) : List JobKey :=
  ((allJobs runs).filter fun entry => !entry.2.state.isTerminal).map fun entry =>
    (entry.1, entry.2.jobId)

theorem mem_unfinished (hkeys : KeysNodup runs) : key ∈ unfinished runs ↔
    ∃ job, findJob runs key = some job ∧ job.state.isTerminal = false := by
  simp only [unfinished, List.mem_map, List.mem_filter, Bool.not_eq_true']
  constructor
  · rintro ⟨entry, ⟨hentry, hopen⟩, rfl⟩
    exact ⟨entry.2, hkeys.findJob hentry, hopen⟩
  · rintro ⟨job, hjob, hopen⟩
    obtain ⟨run, hrun, hj⟩ := findJob_eq_some.1 hjob
    refine ⟨(key.1, job), ⟨mem_allJobs.2 ⟨run, Keyed.mem_of_get? hrun, Keyed.key_of_get? hrun,
      Keyed.mem_of_get? hj⟩, hopen⟩, ?_⟩
    rw [findJob_jobId hjob]

theorem nodup_unfinished (hkeys : KeysNodup runs) : (unfinished runs).Nodup :=
  hkeys.nodup.sublist (List.filter_sublist.map _)

theorem unfinished_eq_nil (hkeys : KeysNodup runs) : unfinished runs = [] ↔
    ∀ key job, findJob runs key = some job → job.state.isTerminal = true := by
  simp only [List.eq_nil_iff_forall_not_mem, mem_unfinished hkeys, not_exists, not_and,
    Bool.not_eq_false]

theorem length_unfinished_le (hkeys : KeysNodup runs') (h : unfinished runs' ⊆ unfinished runs) :
    (unfinished runs').length ≤ (unfinished runs).length :=
  (List.subperm_of_subset (nodup_unfinished hkeys) h).length_le

/-- One of them ended. -/
theorem length_unfinished_lt (hkeys : KeysNodup runs') (h : unfinished runs' ⊆ unfinished runs)
    (hmem : key ∈ unfinished runs) (hended : key ∉ unfinished runs') :
    (unfinished runs').length < (unfinished runs).length := by
  have hnodup : (key :: unfinished runs').Nodup :=
    List.nodup_cons.2 ⟨hended, nodup_unfinished hkeys⟩
  exact (List.subperm_of_subset hnodup (List.cons_subset.2 ⟨hmem, h⟩)).length_le

/-- The step adds no run. -/
def Label.AddsNone : Label → Prop
  | .submit _ _ _ _ _ _ => False
  | _ => True

/-- Without a new run the jobs are those there were. -/
theorem Step.findJob_before (hinv : KeysInv s) (h : Step cfg s label s') (hnone : label.AddsNone)
    {job' : JobInstance} (hjob' : findJob s'.daemon.runs key = some job') :
    ∃ job, findJob s.daemon.runs key = some job ∧ JobStep s key job label job' := by
  rcases h.runs hinv with hmoved | ⟨_, _, _, _, _, -, -, -, -, iter, _, _, rfl⟩
  · obtain ⟨job, hjob, -⟩ := hmoved.holds key job' hjob'
    obtain ⟨job'', hjob'', hbecame⟩ := h.job hinv hjob
    obtain rfl := Option.some.inj (hjob''.symm.trans hjob')
    exact ⟨job, hjob, hbecame⟩
  · exact hnone.elim

/-- What has ended stays so. -/
theorem Step.unfinished_subset (hinv : KeysInv s) (h : Step cfg s label s')
    (hnone : label.AddsNone) : unfinished s'.daemon.runs ⊆ unfinished s.daemon.runs := by
  intro key hkey
  obtain ⟨job', hjob', hopen⟩ := (mem_unfinished (hinv.step h).keys).1 hkey
  obtain ⟨job, hjob, hbecame⟩ := h.findJob_before hinv hnone hjob'
  refine (mem_unfinished hinv.keys).2 ⟨job, hjob, Bool.eq_false_iff.2 fun hterm => ?_⟩
  rw [hbecame.terminal hterm, hterm] at hopen
  cases hopen

/-- A step that ends a job leaves fewer. -/
theorem Step.unfinished_lt (hinv : KeysInv s) (h : Step cfg s label s') (hnone : label.AddsNone)
    {job job' : JobInstance} (hjob : findJob s.daemon.runs key = some job)
    (hopen : job.state.isTerminal = false) (hjob' : findJob s'.daemon.runs key = some job')
    (hterm : job'.state.isTerminal = true) :
    (unfinished s'.daemon.runs).length < (unfinished s.daemon.runs).length := by
  have hkeys := (hinv.step h).keys
  refine length_unfinished_lt hkeys (h.unfinished_subset hinv hnone)
    ((mem_unfinished hinv.keys).2 ⟨job, hjob, hopen⟩) fun hmem => ?_
  obtain ⟨job'', hjob'', hopen'⟩ := (mem_unfinished hkeys).1 hmem
  obtain rfl := Option.some.inj (hjob''.symm.trans hjob')
  rw [hterm] at hopen'
  cases hopen'

/-! ### What jobs go by -/

/-- The state and the description of every job. -/
def workIn (runs : List WorkflowRun) (key : JobKey) : Option (JobState × JobSpec) :=
  (findJob runs key).map fun job => (job.state, job.spec)

theorem workIn_eq_some {state : JobState} {spec : JobSpec} : workIn runs key = some (state, spec) ↔
    ∃ job, findJob runs key = some job ∧ job.state = state ∧ job.spec = spec := by
  simp [workIn, Option.map_eq_some_iff]

/-- The sections that decide what becomes of jobs. -/
def Label.decides : Label → Bool
  | .tick | .cascade _ | .launchesApplied _ | .pollsApplied _ => true
  | _ => false

/-- Everything else leaves jobs in their states. -/
theorem JobStep.state_kept {job job' : JobInstance} (h : JobStep s key job label job')
    (hcalm : label.decides = false) : job'.state = job.state := by
  cases h with
  | same _ => rfl
  | marked _ => exact job.markCancelling_same.2.2.1
  | queued _ _ _ => cases hcalm
  | skipped _ _ _ => cases hcalm
  | launched _ _ _ _ _ => cases hcalm
  | polled _ _ _ _ _ => cases hcalm

theorem Step.workIn_kept (hinv : KeysInv s) (h : Step cfg s label s') (hnone : label.AddsNone)
    (hcalm : label.decides = false) : workIn s'.daemon.runs = workIn s.daemon.runs := by
  funext key
  cases hjob' : findJob s'.daemon.runs key with
  | some job' =>
    obtain ⟨job, hjob, hbecame⟩ := h.findJob_before hinv hnone hjob'
    rw [workIn, workIn, hjob, hjob', Option.map_some, Option.map_some, hbecame.spec,
      hbecame.state_kept hcalm]
  | none =>
    cases hjob : findJob s.daemon.runs key with
    | none => rw [workIn, workIn, hjob, hjob']
    | some job =>
      obtain ⟨job', hfound, -⟩ := h.job hinv hjob
      rw [hjob'] at hfound
      cases hfound

/-! ### Nothing left to queue or to skip -/

/-- No Pending job has only succeeded dependencies. -/
def NoneReady (work : JobKey → Option (JobState × JobSpec)) : Prop :=
  ∀ key spec, work key = some (.pending, spec) →
    ∃ dep ∈ spec.dependsOn, (work (key.1, dep)).map Prod.fst ≠ some .succeeded

/-- No job that waits has a dependency that ended badly. -/
def NoneDoomed (work : JobKey → Option (JobState × JobSpec)) : Prop :=
  ∀ key state spec, work key = some (state, spec) → state = .pending ∨ state = .queued →
    ∀ dep ∈ spec.dependsOn, ∀ depState, (work (key.1, dep)).map Prod.fst = some depState →
      depState.isBad = false

theorem workIn_stateOf {id : String} {run : WorkflowRun} (hrun : findRun runs id = some run)
    (dep : String) : (workIn runs (id, dep)).map Prod.fst = run.stateOf dep := by
  rw [← stateIn_eq_stateOf hrun, stateIn, workIn, Option.map_map]
  rfl

/-- `advance_pending` picks nobody. -/
theorem noneReady_iff (hkeys : KeysNodup runs) : NoneReady (workIn runs) ↔
    ∀ id run, findRun runs id = some run → run.toQueue = [] := by
  constructor
  · intro h id run hrun
    refine List.eq_nil_iff_forall_not_mem.2 fun jobId hmem => ?_
    obtain ⟨job, hjobMem, rfl⟩ := List.mem_map.1 hmem
    have hnodup := hkeys.jobIds run (Keyed.mem_of_get? hrun)
    have hj : run.job? job.jobId = some job :=
      Keyed.get?_of_mem hnodup (List.mem_filter.1 hjobMem).1
    obtain ⟨hpending, hdeps⟩ := (WorkflowRun.mem_toQueue hnodup hj).1 hmem
    have hjob : findJob runs (id, job.jobId) = some job := findJob_eq_some.2 ⟨run, hrun, hj⟩
    obtain ⟨dep, hdep, hne⟩ :=
      h (id, job.jobId) job.spec (workIn_eq_some.2 ⟨job, hjob, hpending, rfl⟩)
    rw [workIn_stateOf hrun] at hne
    exact hne (WorkflowRun.depsSucceeded_iff.1 hdeps dep hdep)
  · intro h key spec hwork
    obtain ⟨job, hjob, hpending, rfl⟩ := workIn_eq_some.1 hwork
    obtain ⟨run, hrun, hj⟩ := findJob_eq_some.1 hjob
    by_contra hall
    push Not at hall
    have hmem := (WorkflowRun.mem_toQueue (hkeys.jobIds run (Keyed.mem_of_get? hrun)) hj).2
      ⟨hpending, WorkflowRun.depsSucceeded_iff.2 fun dep hdep =>
        workIn_stateOf hrun dep ▸ hall dep hdep⟩
    rw [h key.1 run hrun] at hmem
    cases hmem

/-- `cascade_skipped` picks nobody. -/
theorem noneDoomed_iff (hkeys : KeysNodup runs) : NoneDoomed (workIn runs) ↔
    ∀ id run, findRun runs id = some run → run.toSkip = [] := by
  constructor
  · intro h id run hrun
    refine List.eq_nil_iff_forall_not_mem.2 fun jobId hmem => ?_
    obtain ⟨job, hjobMem, rfl⟩ := List.mem_map.1 hmem
    have hnodup := hkeys.jobIds run (Keyed.mem_of_get? hrun)
    have hj : run.job? job.jobId = some job :=
      Keyed.get?_of_mem hnodup (List.mem_filter.1 hjobMem).1
    obtain ⟨hwaits, hdeps⟩ := (WorkflowRun.mem_toSkip hnodup hj).1 hmem
    obtain ⟨dep, hdep, state, hstate, hbad⟩ := WorkflowRun.depBad_iff.1 hdeps
    have hjob : findJob runs (id, job.jobId) = some job := findJob_eq_some.2 ⟨run, hrun, hj⟩
    rw [h (id, job.jobId) job.state job.spec (workIn_eq_some.2 ⟨job, hjob, rfl, rfl⟩) hwaits dep
      hdep state ((workIn_stateOf hrun dep).trans hstate)] at hbad
    cases hbad
  · intro h key state spec hwork hwaits dep hdep depState hdepState
    obtain ⟨job, hjob, rfl, rfl⟩ := workIn_eq_some.1 hwork
    obtain ⟨run, hrun, hj⟩ := findJob_eq_some.1 hjob
    rw [workIn_stateOf hrun] at hdepState
    by_contra hbad
    have hmem := (WorkflowRun.mem_toSkip (hkeys.jobIds run (Keyed.mem_of_get? hrun)) hj).2
      ⟨hwaits, WorkflowRun.depBad_iff.2 ⟨dep, hdep, depState, hdepState,
        (Bool.not_eq_false _).mp hbad⟩⟩
    rw [h key.1 run hrun] at hmem
    cases hmem

/-- Once `advance_pending` has queued who is ready, nobody is. -/
theorem WorkflowRun.toQueue_advancePending {run : WorkflowRun}
    (hnodup : (run.jobs.map JobInstance.jobId).Nodup) : run.advancePending.toQueue = [] := by
  have hjob : ∀ id, run.advancePending.job? id = (run.job? id).map fun job =>
      if id ∈ run.toQueue then job.queue else job :=
    run.job?_updateAll (fun _ => rfl) fun _ => rfl
  have hnodup' : (run.advancePending.jobs.map JobInstance.jobId).Nodup := by
    rwa [WorkflowRun.advancePending,
      WorkflowRun.map_jobId_updateAll (f := JobInstance.queue) (fun _ => rfl) fun _ => rfl]
  refine List.eq_nil_iff_forall_not_mem.2 fun id hmem => ?_
  obtain ⟨job', hmem', rfl⟩ := List.mem_map.1 hmem
  have hj' : run.advancePending.job? job'.jobId = some job' :=
    Keyed.get?_of_mem hnodup' (List.mem_filter.1 hmem').1
  obtain ⟨hpending, hdeps⟩ := (WorkflowRun.mem_toQueue hnodup' hj').1 hmem
  rw [hjob, Option.map_eq_some_iff] at hj'
  obtain ⟨job, hj, heq⟩ := hj'
  split at heq
  · rw [← heq] at hpending
    cases hpending
  next hnot =>
  subst heq
  refine hnot ((WorkflowRun.mem_toQueue hnodup hj).2 ⟨hpending, ?_⟩)
  -- a dependency that succeeded had done so before
  rw [WorkflowRun.depsSucceeded_iff] at hdeps ⊢
  intro dep hdep
  have hsucceeded := hdeps dep hdep
  simp only [WorkflowRun.stateOf, hjob, Option.map_map, Option.map_eq_some_iff,
    Function.comp_apply] at hsucceeded ⊢
  obtain ⟨depJob, hdepJob, hstate⟩ := hsucceeded
  refine ⟨depJob, hdepJob, ?_⟩
  split at hstate
  · cases hstate
  · exact hstate

end Roster
