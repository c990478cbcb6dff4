import Roster.Scheduler.JobStep

/-!
# The numbers of runs and jobs

Events name a run and a job by numbers, which `handle_submit` and `take_back_runs` take from two
counters.  A job keeps its number for as long as it is there, and no two jobs have the same one
(`Numbered`), whichever runs are added at whatever moment.
-/

namespace Roster

/-- No two runs and no two jobs have the same number, and the counters are ahead of all of them. -/
structure Numbered (daemon : DaemonState) : Prop where
  run : ∀ id run, findRun daemon.runs id = some run → run.runSeq < daemon.runCounter
  runInj : ∀ id id' run run', findRun daemon.runs id = some run →
    findRun daemon.runs id' = some run' → run.runSeq = run'.runSeq → id = id'
  job : ∀ key job, findJob daemon.runs key = some job → job.jobSeq < daemon.jobCounter
  jobInj : ∀ key key' job job', findJob daemon.runs key = some job →
    findJob daemon.runs key' = some job' → job.jobSeq = job'.jobSeq → key = key'

/-- A daemon without a run. -/
theorem Numbered.of_nil {daemon : DaemonState} (h : daemon.runs = []) : Numbered daemon := by
  refine ⟨fun id run hrun => ?_, fun id _ run _ hrun => ?_, fun key job hjob => ?_,
    fun key _ job _ hjob => ?_⟩
  all_goals simp [h, findJob, findRun] at *

/-! ### What keeps them -/

/-- The runs keep their numbers, and the counters and the events are as they were. -/
structure NumbersKept (daemon daemon' : DaemonState) : Prop where
  runCounter : daemon'.runCounter = daemon.runCounter
  jobCounter : daemon'.jobCounter = daemon.jobCounter
  events : daemon'.events = daemon.events
  run : ∀ id, (findRun daemon'.runs id).map WorkflowRun.runSeq =
    (findRun daemon.runs id).map WorkflowRun.runSeq

namespace NumbersKept

variable {daemon daemon' daemon'' : DaemonState}

theorem refl (daemon : DaemonState) : NumbersKept daemon daemon := ⟨rfl, rfl, rfl, fun _ => rfl⟩

theorem trans (h : NumbersKept daemon daemon') (h' : NumbersKept daemon' daemon'') :
    NumbersKept daemon daemon'' :=
  ⟨h'.runCounter.trans h.runCounter, h'.jobCounter.trans h.jobCounter, h'.events.trans h.events,
    fun id => (h'.run id).trans (h.run id)⟩

/-- A change made run by run that leaves every run's id and number. -/
theorem runs {g : WorkflowRun → WorkflowRun} (hid : ∀ run, (g run).runId = run.runId)
    (hseq : ∀ run, (g run).runSeq = run.runSeq) :
    NumbersKept daemon { daemon with runs := daemon.runs.map g } := by
  refine ⟨rfl, rfl, rfl, fun id => ?_⟩
  have hfind : findRun (daemon.runs.map g) id = (findRun daemon.runs id).map g :=
    Keyed.get?_map fun run _ => hid run
  rw [hfind, Option.map_map]
  exact congrArg (Option.map · _) (funext hseq)

theorem modify {runId : String} {g : WorkflowRun → WorkflowRun}
    (hid : ∀ run, (g run).runId = run.runId) (hseq : ∀ run, (g run).runSeq = run.runSeq) :
    NumbersKept daemon { daemon with
      runs := Keyed.modify WorkflowRun.runId daemon.runs runId g } :=
  .runs (fun run => by split <;> simp [hid]) fun run => by split <;> simp [hseq]

theorem updateJob {key : JobKey} {f : JobInstance → JobInstance}
    {pools : List ResourcePool} {requalify : List (ℕ × UInt32)} :
    NumbersKept daemon { daemon with
      runs := updateJob daemon.runs key f, pools := pools, requalify := requalify } :=
  have h : NumbersKept daemon { daemon with runs := Roster.updateJob daemon.runs key f } :=
    .modify (fun _ => rfl) fun _ => rfl
  ⟨h.runCounter, h.jobCounter, h.events, h.run⟩

theorem applyLaunch {cfg : Config} {now : DateTime} {acc acc' : Applied} {outcome : LaunchOutcome}
    (h : applyLaunch cfg now acc outcome = .ok acc') : NumbersKept acc.daemon acc'.daemon := by
  cases applyLaunch_eq_ok h with
  | returned _ _ => exact ⟨rfl, rfl, rfl, fun _ => rfl⟩
  | started _ _ _ _ => exact .updateJob
  | turnedDown _ _ _ _ _ => exact .updateJob
  | failed _ _ _ _ _ => exact .updateJob

theorem applyPoll {now : DateTime} {acc acc' : Applied} {entry : PollEntry}
    (h : applyPoll now acc entry = .ok acc') : NumbersKept acc.daemon acc'.daemon := by
  cases applyPoll_eq_ok h with
  | same _ => exact .refl _
  | failed _ _ _ _ => exact .updateJob
  | exited _ _ _ => exact .updateJob

/-- Results that are applied one after the other. -/
theorem foldlM {α : Type} {apply : Applied → α → Exec Applied} {results : List α}
    {acc acc' : Applied}
    (hone : ∀ acc acc' a, apply acc a = .ok acc' → NumbersKept acc.daemon acc'.daemon)
    (h : results.foldlM apply acc = .ok acc') : NumbersKept acc.daemon acc'.daemon :=
  Exec.foldlM_invariant (P := fun mid : Applied => NumbersKept acc.daemon mid.daemon)
    (fun mid a mid' _ hmid hok => hmid.trans (hone mid mid' a hok)) h (.refl _)

end NumbersKept

/-- A silent step keeps the numbers, and sends no event. -/
theorem Step.numbersKept {cfg : Config} {s s' : SchedulerState} {label : Label} (hinv : KeysInv s)
    (h : Step cfg s label s') (hsilent : label.Silent) : NumbersKept s.daemon s'.daemon := by
  cases h with
  | submit _ _ _ => exact hsilent.elim
  | flushed _ => exact hsilent.elim
  | cancel runId =>
    dsimp only
    rw [cancelRun_eq]
    exact .modify (fun _ => rfl) fun _ => rfl
  | reorderRuns hperm =>
    exact ⟨rfl, rfl, rfl, fun id =>
      congrArg (Option.map _) (Keyed.get?_perm hperm hinv.keys.runIds)⟩
  | @reorderJobs s runId run jobs _ _ =>
    exact NumbersKept.modify (g := fun run => { run with jobs := jobs }) (fun _ => rfl) fun _ => rfl
  | gpusBlocked _ hok =>
    obtain ⟨_, _, rfl, -⟩ := blockGpus_eq_ok hok
    exact ⟨rfl, rfl, rfl, fun _ => rfl⟩
  | tick => exact .runs (fun _ => rfl) fun _ => rfl
  | cascade _ => exact .runs (fun _ => rfl) fun _ => rfl
  | launchesApplied hok => exact .foldlM (fun _ _ _ => .applyLaunch) hok
  | pollsApplied hok => exact .foldlM (fun _ _ _ => .applyPoll) hok
  | _ => exact ⟨rfl, rfl, rfl, fun _ => rfl⟩

/-- A job keeps its number. -/
theorem JobStep.jobSeq {s : SchedulerState} {key : JobKey} {job job' : JobInstance} {label : Label}
    (h : JobStep s key job label job') : job'.jobSeq = job.jobSeq := by
  cases h with
  | same _ => rfl
  | marked _ => unfold JobInstance.markCancelling; split <;> rfl
  | queued _ _ _ => rfl
  | skipped _ _ _ => rfl
  | launched _ _ _ _ hlaunched => cases hlaunched <;> rfl
  | polled _ _ _ _ hpolled =>
    cases hpolled with
    | running _ => rfl
    | unreachable _ _ => rfl
    | failed _ _ => rfl
    | exited _ _ =>
      unfold JobInstance.exited
      split
      · rfl
      · split <;> rfl

/-! ### Every step -/

/-- Numbers that are kept stay unique. -/
theorem Numbered.kept {daemon daemon' : DaemonState} (h : Numbered daemon)
    (hkept : NumbersKept daemon daemon')
    (hjobs : ∀ key job', findJob daemon'.runs key = some job' →
      ∃ job, findJob daemon.runs key = some job ∧ job'.jobSeq = job.jobSeq) :
    Numbered daemon' := by
  have hruns : ∀ id run', findRun daemon'.runs id = some run' →
      ∃ run, findRun daemon.runs id = some run ∧ run'.runSeq = run.runSeq := by
    intro id run' hrun'
    have hmap := hkept.run id
    rw [hrun', Option.map_some] at hmap
    obtain ⟨run, hrun, hseq⟩ := Option.map_eq_some_iff.1 hmap.symm
    exact ⟨run, hrun, hseq.symm⟩
  refine ⟨fun id run' hrun' => ?_, fun id id' run₁ run₂ h₁ h₂ heq => ?_, fun key job' hjob' => ?_,
    fun key key' job₁ job₂ h₁ h₂ heq => ?_⟩
  · obtain ⟨run, hrun, hseq⟩ := hruns id run' hrun'
    rw [hseq, hkept.runCounter]
    exact h.run id run hrun
  · obtain ⟨run, hrun, hseq⟩ := hruns id run₁ h₁
    obtain ⟨run', hrun', hseq'⟩ := hruns id' run₂ h₂
    exact h.runInj id id' run run' hrun hrun' (hseq ▸ hseq' ▸ heq)
  · obtain ⟨job, hjob, hseq⟩ := hjobs key job' hjob'
    rw [hseq, hkept.jobCounter]
    exact h.job key job hjob
  · obtain ⟨job, hjob, hseq⟩ := hjobs key job₁ h₁
    obtain ⟨job', hjob', hseq'⟩ := hjobs key' job₂ h₂
    exact h.jobInj key key' job job' hjob hjob' (hseq ▸ hseq' ▸ heq)

/-- The jobs of a run take consecutive numbers. -/
structure NumberedFrom (run : WorkflowRun) (start count : ℕ) : Prop where
  bounds : ∀ id job, run.job? id = some job → start ≤ job.jobSeq ∧ job.jobSeq < start + count
  inj : ∀ id id' job job', run.job? id = some job → run.job? id' = some job' →
    job.jobSeq = job'.jobSeq → id = id'

theorem NumberedFrom.new {spec : WorkflowSpec} (hids : spec.ids.Nodup) (runId : String)
    (runSeq start : ℕ) (now : DateTime) :
    NumberedFrom (.new runId runSeq spec start now) start spec.jobs.length := by
  have hfind : ∀ id job, (WorkflowRun.new runId runSeq spec start now).job? id = some job →
      ∃ i jobSpec, spec.jobs[i]? = some jobSpec ∧ jobSpec.id = id ∧ job.jobSeq = start + i := by
    intro id job hjob
    have hmem := Keyed.mem_of_get? hjob
    have hid := Keyed.key_of_get? hjob
    rw [WorkflowRun.jobs_new hids] at hmem
    obtain ⟨⟨jobSpec, i⟩, hentry, rfl⟩ := List.mem_map.1 hmem
    exact ⟨i, jobSpec, List.mem_zipIdx_iff_getElem?.1 hentry, hid, rfl⟩
  refine ⟨fun id job hjob => ?_, fun id id' job job' hjob hjob' heq => ?_⟩
  · obtain ⟨i, jobSpec, hi, -, hseq⟩ := hfind id job hjob
    have hlt := (List.getElem?_eq_some_iff.1 hi).1
    omega
  · obtain ⟨i, jobSpec, hi, rfl, hseq⟩ := hfind id job hjob
    obtain ⟨i', jobSpec', hi', rfl, hseq'⟩ := hfind id' job' hjob'
    obtain rfl : i = i' := by omega
    rw [Option.some.inj (hi.symm.trans hi')]

/-- Putting in a run that takes its numbers from the counters keeps them unique, whether or not a
run was there under its id. -/
theorem Numbered.insert {daemon : DaemonState} (h : Numbered daemon) (run : WorkflowRun) {n : ℕ}
    (hseq : run.runSeq = daemon.runCounter) (hjobs : NumberedFrom run daemon.jobCounter n)
    {daemon' : DaemonState} (hruns : daemon'.runs = Keyed.insert WorkflowRun.runId daemon.runs run)
    (hrunCounter : daemon'.runCounter = daemon.runCounter + 1)
    (hjobCounter : daemon'.jobCounter = daemon.jobCounter + n) : Numbered daemon' := by
  have hfind : ∀ id, findRun daemon'.runs id =
      if run.runId = id then some run else findRun daemon.runs id := fun id => by
    rw [hruns]; exact Keyed.get?_insert
  -- a run and a job are either the new ones or were there
  have hrunOr : ∀ id run', findRun daemon'.runs id = some run' →
      (run.runId = id ∧ run' = run) ∨ (run.runId ≠ id ∧ findRun daemon.runs id = some run') := by
    intro id run' hrun'
    rw [hfind] at hrun'
    split at hrun'
    · next heq => exact .inl ⟨heq, (Option.some.inj hrun').symm⟩
    · next hne => exact .inr ⟨hne, hrun'⟩
  have hjobOr : ∀ key job, findJob daemon'.runs key = some job →
      (run.runId = key.1 ∧ run.job? key.2 = some job) ∨
        (run.runId ≠ key.1 ∧ findJob daemon.runs key = some job) := by
    intro key job hjob
    obtain ⟨run', hrun', hj⟩ := findJob_eq_some.1 hjob
    rcases hrunOr key.1 run' hrun' with ⟨heq, rfl⟩ | ⟨hne, hrun⟩
    · exact .inl ⟨heq, hj⟩
    · exact .inr ⟨hne, findJob_eq_some.2 ⟨run', hrun, hj⟩⟩
  refine ⟨fun id run' hrun' => ?_, fun id id' run₁ run₂ h₁ h₂ heq => ?_, fun key job hjob => ?_,
    fun key key' job₁ job₂ h₁ h₂ heq => ?_⟩
  · rw [hrunCounter]
    rcases hrunOr id run' hrun' with ⟨-, rfl⟩ | ⟨-, hrun⟩
    · omega
    · have := h.run id run' hrun
      omega
  · rcases hrunOr id run₁ h₁ with ⟨hid, rfl⟩ | ⟨-, hrun₁⟩ <;>
      rcases hrunOr id' run₂ h₂ with ⟨hid', rfl⟩ | ⟨-, hrun₂⟩
    · exact hid.symm.trans hid'
    · have := h.run id' run₂ hrun₂
      omega
    · have := h.run id run₁ hrun₁
      omega
    · exact h.runInj id id' run₁ run₂ hrun₁ hrun₂ heq
  · rw [hjobCounter]
    rcases hjobOr key job hjob with ⟨-, hj⟩ | ⟨-, hj⟩
    · exact (hjobs.bounds key.2 job hj).2
    · have := h.job key job hj
      omega
  · rcases hjobOr key job₁ h₁ with ⟨hid, hj₁⟩ | ⟨-, hj₁⟩ <;>
      rcases hjobOr key' job₂ h₂ with ⟨hid', hj₂⟩ | ⟨-, hj₂⟩
    · exact Prod.ext (hid.symm.trans hid') (hjobs.inj key.2 key'.2 job₁ job₂ hj₁ hj₂ heq)
    · have hlt := h.job key' job₂ hj₂
      have hge := (hjobs.bounds key.2 job₁ hj₁).1
      omega
    · have hlt := h.job key job₁ hj₁
      have hge := (hjobs.bounds key'.2 job₂ hj₂).1
      omega
    · exact h.jobInj key key' job₁ job₂ hj₁ hj₂ heq

/-- Every step keeps the numbers unique. -/
theorem Numbered.step {cfg : Config} {s s' : SchedulerState} {label : Label}
    (h : Numbered s.daemon) (hinv : KeysInv s) (hstep : Step cfg s label s') :
    Numbered s'.daemon := by
  cases hstep.kind with
  | submit _ haccepts =>
    exact h.insert (.new _ s.daemon.runCounter _ s.daemon.jobCounter _) rfl
      (.new (Dag.exists_topological haccepts).1 _ _ _ _) rfl rfl rfl
  | flushed hok =>
    obtain ⟨store, events, rfl⟩ := flushTransition_eq_ok hok
    exact ⟨h.run, h.runInj, h.job, h.jobInj⟩
  | silent hsilent =>
    refine h.kept (hstep.numbersKept hinv hsilent) fun key job' hjob' => ?_
    -- a job that was there keeps its number
    obtain ⟨job, hjob, -⟩ := (hstep.runs_silent hinv hsilent).holds key job' hjob'
    obtain ⟨job'', hjob'', hbecame⟩ := hstep.job hinv hjob
    obtain rfl := Option.some.inj (hjob''.symm.trans hjob')
    exact ⟨job, hjob, hbecame.jobSeq⟩

/-- A run keeps its number. -/
theorem Step.runSeq_kept {cfg : Config} {s s' : SchedulerState} {label : Label} (hinv : KeysInv s)
    (h : Step cfg s label s') {id : String} {run : WorkflowRun}
    (hrun : findRun s.daemon.runs id = some run) :
    ∃ run', findRun s'.daemon.runs id = some run' ∧ run'.runSeq = run.runSeq := by
  cases h.kind with
  | submit hfresh _ =>
    refine ⟨run, ?_, rfl⟩
    dsimp only
    rw [submit_runs hfresh, findRun_append _ hfresh, if_neg]
    · exact hrun
    · rintro rfl
      exact Option.some_ne_none _ (hrun.symm.trans hfresh)
  | flushed hok =>
    obtain ⟨store, events, rfl⟩ := flushTransition_eq_ok hok
    exact ⟨run, hrun, rfl⟩
  | silent hsilent =>
    have hmap := (h.numbersKept hinv hsilent).run id
    rw [hrun, Option.map_some] at hmap
    exact Option.map_eq_some_iff.1 hmap

end Roster
