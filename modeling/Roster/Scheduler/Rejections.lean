import Roster.Scheduler.Inventory
import Roster.Scheduler.JobStep

/-!
# Nodes that turned a job down

A job that a node turns down waits for another node, and fails once no other node could ever take
it.  The node is chosen in one section, asked in the next, and its answer applied in a third, with
the outcomes of other jobs before it.  In between the list of the nodes that turned the job down
stays as it was (`RejectionsInv`), so no node is asked twice, and what is decided at the end goes by
what the nodes have, which nothing changes (`rejections_counted`).
-/

namespace Roster

/-- None of these nodes has turned the job down. -/
def NotRejected (runs : List WorkflowRun) (key : JobKey) (nodes : List ℕ) : Prop :=
  ∃ job, findJob runs key = some job ∧ ∀ node ∈ nodes, job.rejectedBy node = false

/-- Every node that is to be asked, or was asked, has not turned the job down before. -/
def Phase.AsksOthers (runs : List WorkflowRun) : Phase → Prop
  | .launching tasks outcomes =>
    (∀ task ∈ tasks, NotRejected runs task.key (task.placement.map Prod.fst)) ∧
      ∀ outcome ∈ outcomes, NotRejected runs outcome.key (outcome.executions.map Execution.node)
  | _ => True

/-- No node has turned a job down twice, and none that did is asked again. -/
structure RejectionsInv (s : SchedulerState) : Prop where
  jobs : JobsInv s
  nodup : ∀ key job, findJob s.daemon.runs key = some job → (job.rejected.map Prod.fst).Nodup
  asks : s.phase.AsksOthers s.daemon.runs

/-- Where a controller starts: nothing is being launched, and no job was turned down. -/
structure SchedulerState.Unrejected (s : SchedulerState) : Prop where
  jobs : JobsInv s
  phase : ∀ tasks outcomes, s.phase ≠ .launching tasks outcomes
  rejected : ∀ key job, findJob s.daemon.runs key = some job → job.rejected = []

theorem SchedulerState.Unrejected.inv {s : SchedulerState} (h : s.Unrejected) :
    RejectionsInv s where
  jobs := h.jobs
  nodup key job hjob := by simp [h.rejected key job hjob]
  asks := by
    cases hphase : s.phase with
    | launching tasks outcomes => exact absurd hphase (h.phase tasks outcomes)
    | _ => trivial

theorem rejectedBy_eq_false {job : JobInstance} {node : ℕ} :
    job.rejectedBy node = false ↔ node ∉ job.rejected.map Prod.fst := by
  simp only [JobInstance.rejectedBy, List.any_eq_false, decide_eq_true_eq, List.mem_map, not_exists,
    not_and]

theorem NotRejected.mono {runs runs' : List WorkflowRun} {key : JobKey} {nodes : List ℕ}
    (h : NotRejected runs key nodes) (hkept : ∀ job, findJob runs key = some job →
      ∃ job', findJob runs' key = some job' ∧ job'.rejected = job.rejected) :
    NotRejected runs' key nodes := by
  obtain ⟨job, hjob, hnodes⟩ := h
  obtain ⟨job', hjob', hsame⟩ := hkept job hjob
  refine ⟨job', hjob', fun node hnode => ?_⟩
  rw [← hnodes node hnode, JobInstance.rejectedBy, JobInstance.rejectedBy, hsame]

/-! ### What a launch does to the list -/

/-- What the outcome of its launch made of a job, and where the list of its rejections comes in. -/
inductive RejectedJob (pools : List ResourcePool) (outcome : LaunchOutcome) (now : DateTime)
    (job : JobInstance) : JobInstance → Prop
  | kept {job' : JobInstance} : (∀ reason, outcome.result ≠ .error (.rejected reason)) →
      job'.rejected = job.rejected → RejectedJob pools outcome now job job'
  | turnedDown {reason : String} {execution : Execution} (reasons : List String) :
      outcome.result = .error (.rejected reason) → outcome.executions[0]? = some execution →
      couldGoElsewhere pools (job.turnedDown execution.node reason reasons) = true →
      RejectedJob pools outcome now job (job.turnedDown execution.node reason reasons)
  | refused {reason : String} {execution : Execution} (reasons : List String) :
      outcome.result = .error (.rejected reason) → outcome.executions[0]? = some execution →
      couldGoElsewhere pools (job.turnedDown execution.node reason reasons) = false →
      RejectedJob pools outcome now job ((job.turnedDown execution.node reason reasons).fail now)

theorem applyLaunch_rejected {cfg : Config} {now : DateTime} {acc acc' : Applied}
    {outcome : LaunchOutcome} (h : applyLaunch cfg now acc outcome = .ok acc') {job : JobInstance}
    (hjob : findJob acc.daemon.runs outcome.key = some job) :
    ∃ job', findJob acc'.daemon.runs outcome.key = some job' ∧
      RejectedJob acc'.daemon.pools outcome now job job' := by
  have hid := findJob_jobId hjob
  cases applyLaunch_eq_ok h with
  | returned hwhy _ =>
    rcases hwhy with hnone | ⟨reason, hreason⟩
    · rw [hnone] at hjob; cases hjob
    · exact ⟨job, hjob, .kept (by simp [hreason]) rfl⟩
  | started _ hok _ _ =>
    refine ⟨_, findJob_updateJob_self ?_ hjob, .kept (by simp [hok]) rfl⟩
    exact fun _ h => h
  | @turnedDown job₀ reason execution reasons pools job' hjob₀ hresult hexecution _ hjob' =>
    obtain rfl := Option.some.inj (hjob₀.symm.trans hjob)
    have hid' : job'.jobId = outcome.key.2 := by rw [hjob']; split <;> exact hid
    refine ⟨job', findJob_updateJob_self (fun _ _ => hid') hjob, ?_⟩
    rw [hjob']
    split
    · next hgoes => exact .turnedDown reasons hresult hexecution hgoes
    · next hgoes => exact .refused reasons hresult hexecution (Bool.eq_false_iff.2 hgoes)
  | failed _ herror _ hrejected _ =>
    refine ⟨_, findJob_updateJob_self ?_ hjob, .kept (fun reason hsame => ?_) rfl⟩
    · exact fun _ h => h
    · exact hrejected reason (Except.error.inj (herror.symm.trans hsame))

/-- Every outcome is applied to its job, by what the nodes have. -/
theorem Step.launchesApplied_rejected {cfg : Config} {s s' : SchedulerState} {now : DateTime}
    {outcomes : List LaunchOutcome} {outcome : LaunchOutcome} (hinv : KeysInv s)
    (h : Step cfg s (.launchesApplied now) s') (hphase : s.phase = .launching [] outcomes)
    (hmem : outcome ∈ outcomes) : ∃ job job' pools, findJob s.daemon.runs outcome.key = some job ∧
      job.state = .queued ∧ findJob s'.daemon.runs outcome.key = some job' ∧
      inventories pools = inventories s.daemon.pools ∧ RejectedJob pools outcome now job job' := by
  obtain ⟨before, acc, acc', job, hfold, happly, hjob, hqueued, hbefore, hafter⟩ :=
    h.launchesApplied_at hinv hphase hmem
  obtain ⟨job', hjob', hrejected⟩ := applyLaunch_rejected happly hbefore
  exact ⟨job, job', acc'.daemon.pools, hjob, hqueued, hafter.trans hjob',
    (applyLaunch_inventories happly).trans (applyLaunches_inventories hfold), hrejected⟩

/-- Nothing else touches the list. -/
theorem JobStep.rejected {s : SchedulerState} {key : JobKey} {job job' : JobInstance}
    {label : Label} (h : JobStep s key job label job')
    (hlabel : ∀ now, label ≠ .launchesApplied now) : job'.rejected = job.rejected := by
  cases h with
  | same _ => rfl
  | marked hrunning => rw [JobInstance.markCancelling, if_pos hrunning]
  | queued _ _ _ => rfl
  | skipped _ _ _ => rfl
  | launched _ _ _ _ _ => exact absurd rfl (hlabel _)
  | polled _ _ _ _ hpolled =>
    cases hpolled with
    | exited _ _ => exact job.exited_rejected _ _ _ _
    | _ => rfl

/-! ### Runs -/

theorem Phase.AsksOthers.of_kept {runs runs' : List WorkflowRun} {phase : Phase}
    (h : phase.AsksOthers runs) (hkept : ∀ key job, findJob runs key = some job →
      ∃ job', findJob runs' key = some job' ∧ job'.rejected = job.rejected) :
    phase.AsksOthers runs' := by
  cases phase with
  | launching tasks outcomes =>
    exact ⟨fun task htask => (h.1 task htask).mono (hkept task.key),
      fun outcome houtcome => (h.2 outcome houtcome).mono (hkept outcome.key)⟩
  | _ => trivial

/-- The nodes that are to be asked come from the placement, which leaves out those in the list. -/
theorem Admitted.asksOthers {online : List Bool} {runs : List WorkflowRun}
    {entries : List (String × JobInstance)} {pools pools' : List ResourcePool}
    {tasks : List AdmitTask} (hkeys : KeysNodup runs) (hentries : entries ⊆ allJobs runs)
    (h : Admitted online entries pools tasks pools') :
    ∀ task ∈ tasks, NotRejected runs task.key (task.placement.map Prod.fst) := by
  induction h with
  | nil => simp
  | wait _ ih => exact ih (List.cons_subset.1 hentries).2
  | place _ hfree _ _ _ _ ih =>
    obtain ⟨hmem, hrest⟩ := List.cons_subset.1 hentries
    refine List.forall_mem_cons.2 ⟨⟨_, hkeys.findJob hmem, ?_⟩, ih hrest⟩
    simpa using hfree

theorem RejectionsInv.asks_step {cfg : Config} {s s' : SchedulerState} {label : Label}
    (hinv : RejectionsInv s) (h : Step cfg s label s') : s'.phase.AsksOthers s'.daemon.runs := by
  have hasks := hinv.asks
  have hkept : (∀ now, label ≠ .launchesApplied now) → ∀ key job,
      findJob s.daemon.runs key = some job →
      ∃ job', findJob s'.daemon.runs key = some job' ∧ job'.rejected = job.rejected := by
    intro hlabel key job hjob
    obtain ⟨job', hjob', hbecame⟩ := h.job hinv.jobs.keysInv hjob
    exact ⟨job', hjob', hbecame.rejected hlabel⟩
  cases h with
  | submit _ _ _ => exact hasks.of_kept (hkept (by simp))
  | cancel _ => exact hasks.of_kept (hkept (by simp))
  | reorderRuns _ => exact hasks.of_kept (hkept (by simp))
  | reorderJobs _ _ => exact hasks.of_kept (hkept (by simp))
  | flushDone next => cases next <;> trivial
  | admitQueued _ hok =>
    exact ⟨(admitQueued_eq_ok hok).asksOthers hinv.jobs.keys (List.Subset.refl _), by simp⟩
  | @launched _ _ task tasks outcomes results hlen =>
    obtain ⟨hfirst, hrest⟩ := List.forall_mem_cons.1 hasks.1
    refine ⟨hrest, fun outcome hmem => ?_⟩
    rcases List.mem_append.1 hmem with hmem | hmem
    · exact hasks.2 outcome hmem
    · obtain ⟨node, alloc, hplacement⟩ := hinv.jobs.phase.2.1 task List.mem_cons_self
      obtain ⟨launched, -, houtcome⟩ := AdmitTask.outcome_single hplacement hlen
      rw [List.mem_singleton.1 hmem, houtcome]
      rw [hplacement] at hfirst
      exact hfirst
  | _ => trivial

theorem RejectionsInv.nodup_step {cfg : Config} {s s' : SchedulerState} {label : Label}
    (hinv : RejectionsInv s) (h : Step cfg s label s') (key : JobKey) (job' : JobInstance)
    (hjob' : findJob s'.daemon.runs key = some job') : (job'.rejected.map Prod.fst).Nodup := by
  cases hjob : findJob s.daemon.runs key with
  | none =>
    obtain ⟨_, _, rfl⟩ := h.job_new hinv.jobs.keysInv hjob hjob'
    exact List.nodup_nil
  | some job =>
    have hnodup := hinv.nodup key job hjob
    obtain ⟨job₁, hjob₁, hbecame⟩ := h.job hinv.jobs.keysInv hjob
    obtain rfl := Option.some.inj (hjob₁.symm.trans hjob')
    cases hbecame with
    | @launched outcomes outcome now _ hphase hmem hkey _ _ =>
      subst hkey
      obtain ⟨job₂, job₃, pools, hjob₂, -, hjob₃, -, hrejected⟩ :=
        h.launchesApplied_rejected hinv.jobs.keysInv hphase hmem
      obtain rfl := Option.some.inj (hjob.symm.trans hjob₂)
      obtain rfl := Option.some.inj (hjob'.symm.trans hjob₃)
      -- the node that was asked is not in the list yet
      have hasks := hinv.asks
      rw [hphase] at hasks
      obtain ⟨job₄, hjob₄, hfree⟩ := hasks.2 outcome hmem
      obtain rfl := Option.some.inj (hjob.symm.trans hjob₄)
      have hgrows : ∀ {execution : Execution} {reason : String},
          outcome.executions[0]? = some execution →
          ((job.rejected ++ [(execution.node, reason)]).map Prod.fst).Nodup := by
        intro execution reason hexecution
        have hnew := rejectedBy_eq_false.1
          (hfree _ (List.mem_map_of_mem (List.mem_of_getElem? hexecution)))
        rw [List.map_append, List.map_singleton]
        exact List.nodup_append.2 ⟨hnodup, List.nodup_singleton _,
          fun node hnode other hother heq => hnew
            (by rwa [heq, List.mem_singleton.1 hother] at hnode)⟩
      cases hrejected with
      | kept _ hsame => rw [hsame]; exact hnodup
      | turnedDown _ _ hexecution _ => exact hgrows hexecution
      | refused _ _ hexecution _ => exact hgrows hexecution
    | same _ => exact hnodup
    | marked hrunning => rw [JobInstance.markCancelling, if_pos hrunning]; exact hnodup
    | queued _ _ _ => exact hnodup
    | skipped _ _ _ => exact hnodup
    | polled hphase hmem hkey hstate hpolled =>
      have hsame := (JobStep.polled hphase hmem hkey hstate hpolled).rejected (by simp)
      rw [hsame]
      exact hnodup

theorem RejectionsInv.step {cfg : Config} {s s' : SchedulerState} {label : Label}
    (hinv : RejectionsInv s) (h : Step cfg s label s') : RejectionsInv s' :=
  ⟨hinv.jobs.step h, hinv.nodup_step h, hinv.asks_step h⟩

theorem RejectionsInv.reach {cfg : Config} {s₀ s : SchedulerState} (hstart : s₀.Unrejected)
    (h : (scheduler cfg).Reach s₀ s) : RejectionsInv s :=
  h.invariant hstart.inv fun _ _ _ _ hinv hst => hinv.step (step_of_perform hst)

/-! ### What is given back -/

/-- What the launches had reserved that did not start their jobs. -/
def givenBack (outcomes : List LaunchOutcome) : List Execution :=
  (outcomes.filter fun outcome => !outcome.result.isOk).flatMap LaunchOutcome.executions

theorem releaseExecutions_append (pools : List ResourcePool) (first rest : List Execution) :
    releaseExecutions pools (first ++ rest) =
      releaseExecutions pools first >>= fun pools => releaseExecutions pools rest :=
  List.foldlM_append

/-- Applying launches gives back just that. -/
theorem applyLaunches_givenBack {cfg : Config} {now : DateTime} {acc acc' : Applied}
    {outcomes : List LaunchOutcome} (hnodup : (outcomes.map LaunchOutcome.key).Nodup)
    (hfound : ∀ outcome ∈ outcomes, findJob acc.daemon.runs outcome.key ≠ none)
    (h : outcomes.foldlM (applyLaunch cfg now) acc = .ok acc') :
    releaseExecutions acc.daemon.pools (givenBack outcomes) = .ok acc'.daemon.pools := by
  induction outcomes generalizing acc with
  | nil =>
    cases h
    rfl
  | cons outcome outcomes ih =>
    rw [List.foldlM_cons, Exec.bind_eq_ok] at h
    obtain ⟨mid, hmid, hrest⟩ := h
    rw [List.map_cons, List.nodup_cons] at hnodup
    obtain ⟨hhere, hfound⟩ := List.forall_mem_cons.1 hfound
    -- applying one outcome loses no job of the later ones
    have hthere : ∀ later ∈ outcomes, findJob mid.daemon.runs later.key ≠ none := by
      intro later hlater
      rw [(applyLaunch_kept hmid).kept later.key]
      · exact hfound later hlater
      · intro hmem
        rw [List.mem_singleton] at hmem
        exact hnodup.1 (hmem ▸ List.mem_map_of_mem hlater)
    have hpools := ih hnodup.2 hthere hrest
    -- whatever the error, the executions of the outcome go back first
    have hreleased : ∀ {error : ExecutorError}, outcome.result = .error error →
        releaseExecutions acc.daemon.pools outcome.executions = .ok mid.daemon.pools →
        releaseExecutions acc.daemon.pools (givenBack (outcome :: outcomes)) =
          .ok acc'.daemon.pools := by
      intro error herror hrelease
      have hcons : givenBack (outcome :: outcomes) = outcome.executions ++ givenBack outcomes := by
        simp [givenBack, herror, Except.isOk, Except.toBool]
      rw [hcons, releaseExecutions_append, hrelease, Exec.ok_bind, hpools]
    cases applyLaunch_eq_ok hmid with
    | returned hwhy hrelease =>
      rcases hwhy with hnone | ⟨reason, hreason⟩
      · exact absurd hnone hhere
      · exact hreleased hreason hrelease
    | started _ hok _ _ =>
      have hcons : givenBack (outcome :: outcomes) = givenBack outcomes := by
        simp [givenBack, hok, Except.isOk, Except.toBool]
      rw [hcons]
      exact hpools
    | turnedDown _ hresult _ hrelease _ => exact hreleased hresult hrelease
    | failed _ herror _ _ hrelease => exact hreleased herror hrelease

/-! ### The whole count -/

/-- No node that has not turned the job down has what one of its options asks for, whether it is
online or not. -/
def NobodyFits (pools : List ResourcePool) (job : JobInstance) : Prop :=
  ∀ node pool, pools[node]? = some pool → node ∉ job.rejected.map Prod.fst →
    ∀ option ∈ job.spec.resources.gpuOptions, pool.couldFit option = false

theorem nobodyFits_iff {pools : List ResourcePool} {job : JobInstance} :
    NobodyFits pools job ↔ couldGoElsewhere pools job = false := by
  rw [Bool.eq_false_iff, Ne, couldGoElsewhere_iff]
  constructor
  · rintro h ⟨node, pool, hpool, hfree, option, hoption, hfits⟩
    have hnot := h node pool hpool (rejectedBy_eq_false.1 hfree) option hoption
    rw [hfits] at hnot
    cases hnot
  · intro h node pool hpool hfree option hoption
    by_contra hfits
    exact h ⟨node, pool, hpool, rejectedBy_eq_false.2 hfree, option, hoption,
      Bool.eq_true_of_not_eq_false hfits⟩

/-- What a Rejected reply makes of the job: the node is on its list, the job holds nothing, and it
is Failed if nobody fits any more and Queued otherwise. -/
def CountsRejection (s s' : SchedulerState) (outcome : LaunchOutcome) (reason : String) : Prop :=
  ∃ job job' execution, findJob s.daemon.runs outcome.key = some job ∧
    findJob s'.daemon.runs outcome.key = some job' ∧ outcome.executions = [execution] ∧
    job'.spec = job.spec ∧ job'.rejected = job.rejected ++ [(execution.node, reason)] ∧
    job'.executions = [] ∧ (job'.state = .failed ↔ NobodyFits s'.daemon.pools job') ∧
    (¬ NobodyFits s'.daemon.pools job' → job'.state = .queued)

theorem Step.countsRejection {cfg : Config} {s s' : SchedulerState} {now : DateTime}
    {outcomes : List LaunchOutcome} {outcome : LaunchOutcome} {reason : String} (hinv : JobsInv s)
    (h : Step cfg s (.launchesApplied now) s') (hphase : s.phase = .launching [] outcomes)
    (hmem : outcome ∈ outcomes) (hreason : outcome.result = .error (.rejected reason)) :
    CountsRejection s s' outcome reason := by
  obtain ⟨job, job', pools, hjob, hqueued, hjob', hpools, hrejected⟩ :=
    h.launchesApplied_rejected hinv.keysInv hphase hmem
  have hidle : job.executions = [] := (hinv.holds _ job hjob).idle (by rw [hqueued]; simp)
  have hin := hinv.phase
  rw [hphase] at hin
  obtain ⟨node, alloc, launched, hexecutions, -⟩ := hin.2.2 outcome hmem
  have hsame := hpools.trans h.inventories_eq.symm
  cases hrejected with
  | kept hnot _ => exact absurd hreason (hnot reason)
  | @turnedDown reason' execution reasons hreason' hexecution hgoes =>
    obtain rfl := ExecutorError.rejected.inj (Except.error.inj (hreason'.symm.trans hreason))
    rw [hexecutions] at hexecution
    obtain rfl := Option.some.inj hexecution
    have hstill : (job.turnedDown node reason' reasons).state = .queued := hqueued
    -- the job stays Queued because another node could fit it
    have hfits : ¬ NobodyFits s'.daemon.pools (job.turnedDown node reason' reasons) := by
      rw [nobodyFits_iff, couldGoElsewhere_congr hsame.symm rfl rfl, hgoes]
      simp
    exact ⟨job, _, _, hjob, hjob', hexecutions, rfl, rfl, hidle, by simp [hstill, hfits],
      fun _ => hstill⟩
  | @refused reason' execution reasons hreason' hexecution hgoes =>
    obtain rfl := ExecutorError.rejected.inj (Except.error.inj (hreason'.symm.trans hreason))
    rw [hexecutions] at hexecution
    obtain rfl := Option.some.inj hexecution
    have hnobody : NobodyFits s'.daemon.pools
        ((job.turnedDown node reason' reasons).fail now) := by
      rw [nobodyFits_iff, ← hgoes]
      exact couldGoElsewhere_congr hsame.symm rfl rfl
    exact ⟨job, _, _, hjob, hjob', hexecutions, rfl, rfl, hidle, ⟨fun _ => hnobody, fun _ => rfl⟩,
      fun hfits => absurd hnobody hfits⟩

/-- **Rejections are counted exactly.**  In every life of a controller no job's list names a node
twice, no launch of a job goes to a node on its list, and a Rejected reply puts the node on the
list, gives back what was reserved, and makes the job Failed exactly when no node outside the list
has what the job asks for; otherwise it stays Queued. -/
theorem rejections_counted {cfg : Config} {s₀ s : SchedulerState} (hstart : s₀.Unrejected)
    (h : (scheduler cfg).Reach s₀ s) :
    (∀ key job, findJob s.daemon.runs key = some job → (job.rejected.map Prod.fst).Nodup) ∧
    (∀ task tasks outcomes, s.phase = .launching (task :: tasks) outcomes →
      ∃ job, findJob s.daemon.runs task.key = some job ∧
        ∀ member ∈ task.placement, member.1 ∉ job.rejected.map Prod.fst) ∧
    ∀ now s', (scheduler cfg).step s (.launchesApplied now) s' → ∀ outcomes,
      s.phase = .launching [] outcomes →
      releaseExecutions s.daemon.pools (givenBack outcomes) = .ok s'.daemon.pools ∧
      ∀ outcome ∈ outcomes, ∀ reason, outcome.result = .error (.rejected reason) →
        CountsRejection s s' outcome reason := by
  have hinv := RejectionsInv.reach hstart h
  refine ⟨hinv.nodup, fun task tasks outcomes hphase => ?_, fun now s' hst outcomes hphase => ?_⟩
  · have hasks := hinv.asks
    rw [hphase] at hasks
    obtain ⟨job, hjob, hfree⟩ := hasks.1 task List.mem_cons_self
    exact ⟨job, hjob, fun member hmember =>
      rejectedBy_eq_false.1 (hfree member.1 (List.mem_map_of_mem hmember))⟩
  · have hstep := step_of_perform hst
    refine ⟨?_, fun outcome hmem reason hreason =>
      hstep.countsRejection hinv.jobs hphase hmem hreason⟩
    have hin := hinv.jobs.phase
    rw [hphase] at hin
    obtain ⟨hin, -, -⟩ := hin
    rw [List.map_nil, List.nil_append] at hin
    cases hstep with
    | launchesApplied hok =>
      cases hphase
      refine applyLaunches_givenBack hin.nodup (fun outcome hmem => ?_) hok
      obtain ⟨job, hjob, -⟩ := hin.found _ (List.mem_map_of_mem hmem)
      exact Option.ne_none_iff_exists'.2 ⟨job, hjob⟩

/-- The first of two jobs is turned down by the only node. -/
def turnsDownFirst : List Label :=
  [.submit "r" twoJobs twoJobs.jobs 0 true fun _ => true, .tick, .flushed true 1, .flushDone,
    .cascade 2, .flushDone, .admitQueued [true], .launched [.error (.rejected "no such program")]]

/-- The answer that is applied next, when it turns its job down. -/
def SchedulerState.turnsDown? (s : SchedulerState) : Option (JobKey × String) :=
  match s.phase with
  | .launching [] [outcome] =>
    match outcome.result with
    | .error (.rejected reason) => some (outcome.key, reason)
    | _ => none
  | _ => none

theorem SchedulerState.turnsDown?_eq_some {s : SchedulerState} {key : JobKey} {reason : String}
    (h : s.turnsDown? = some (key, reason)) : ∃ outcome, s.phase = .launching [] [outcome] ∧
      outcome.key = key ∧ outcome.result = .error (.rejected reason) := by
  unfold turnsDown? at h
  split at h
  · next outcome hphase =>
    split at h
    · next hresult =>
      obtain ⟨rfl, rfl⟩ := Prod.mk.inj (Option.some.inj h)
      exact ⟨outcome, hphase, rfl, hresult⟩
    · cases h
  · cases h

theorem SchedulerState.unrejected_init (pools : List ResourcePool) :
    (SchedulerState.init pools).Unrejected where
  jobs := (SchedulerState.Fresh.init pools).jobsInv
  phase _ _ := by simp [init]
  rejected _ _ hjob := by cases hjob

/-- Then it has failed, and nobody fits. -/
theorem turnsDownFirst_fails : ∃ s job, (scheduler oneMachine).Reach
    (.init [.new ⟨4, 8192, []⟩]) s ∧ findJob s.daemon.runs ("r", "a") = some job ∧
    job.rejected.map Prod.fst = [0] ∧ job.state = .failed ∧ NobodyFits s.daemon.pools job := by
  have hrun : ((SchedulerState.init [.new ⟨4, 8192, []⟩]).run oneMachine turnsDownFirst).bind
      (fun s => (s.run oneMachine [.launchesApplied 3]).bind fun s' =>
        (findJob s'.daemon.runs ("r", "a")).map fun job =>
          (job.state, job.rejected.map Prod.fst, s.turnsDown?)) =
      some (.failed, [0], some (("r", "a"), "no such program")) := by decide
  simp only [Option.bind_eq_some_iff, Option.map_eq_some_iff, Prod.mk.injEq] at hrun
  obtain ⟨s, hs, s', hs', job, hjob, hfailed, hlist, hturns⟩ := hrun
  obtain ⟨outcome, hphase, hkey, hresult⟩ := SchedulerState.turnsDown?_eq_some hturns
  obtain ⟨_, hst, hdone⟩ := SchedulerState.run_cons.1 hs'
  obtain rfl := Option.some.inj hdone
  have hreach := SchedulerState.reach_of_run hs
  have hcounted := (rejections_counted (SchedulerState.unrejected_init _) hreach).2.2 3 _ hst
    [outcome] hphase
  obtain ⟨_, job', _, -, hjob', -, -, -, -, hiff, -⟩ :=
    hcounted.2 outcome List.mem_cons_self _ hresult
  rw [hkey, hjob] at hjob'
  obtain rfl := Option.some.inj hjob'
  exact ⟨_, job, hreach.tail hst, hjob, hlist, hfailed, hiff.1 hfailed⟩

end Roster
