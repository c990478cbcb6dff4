import Roster.Scheduler.JobStep
import Roster.Workflow.Status

/-!
# How the status of a run moves

What went wrong with a job stays, and so does what is done: a Failed run stays Failed and a
Succeeded run Succeeded.  A Running run does not stay started, though: `deriveRunState` counts a job
that waits and a job that is done alike, so the run is Pending again once all its active jobs
succeeded in one section while a job waits for them (`Step.status_pending_iff`).  In every run of
the scheduler in which that does not happen, no run goes back (`status_forward`).
-/

namespace Roster

/-- The answer of its poll ends a job well: it exited with 0, and no cancel was sent. -/
def PollEntry.Succeeds (entry : PollEntry) : Prop :=
  entry.result = .ok (.exited 0) ∧ entry.cancelling = false

/-- The step ends all active jobs of the run with success, while one of its jobs waits and nothing
went wrong. -/
structure Strands (s : SchedulerState) (label : Label) (run : WorkflowRun) : Prop where
  ends : ∃ now entries, label = .pollsApplied now ∧ s.phase = .polling [] entries ∧
    ∀ job ∈ run.jobs, job.state.isDone = true ∨ job.state = .pending ∨ (job.state = .running ∧
      ∃ entry ∈ entries, entry.key = (run.runId, job.jobId) ∧ entry.Succeeds)
  active : ∃ job ∈ run.jobs, job.state = .running
  waits : ∃ job ∈ run.jobs, job.state = .pending

/-- No run is left with jobs that wait and none that is active. -/
def KeepsActive (s : SchedulerState) (label : Label) : Prop :=
  ∀ run ∈ s.daemon.runs, ¬ Strands s label run

/-! ### The jobs of a run over one step -/

section Jobs

variable {s : SchedulerState} {key : JobKey} {job job' : JobInstance} {label : Label}

/-- No job goes back to waiting. -/
theorem JobStep.pending (h : JobStep s key job label job') (hpending : job'.state = .pending) :
    job.state = .pending := by
  cases h with
  | same _ => exact hpending
  | marked hrunning =>
    rw [job.markCancelling_same.2.2.1, hrunning] at hpending
    cases hpending
  | queued _ _ _ => cases hpending
  | skipped _ _ _ => cases hpending
  | launched _ _ _ hqueued hlaunched =>
    cases hlaunched with
    | started _ _ => cases hpending
    | unreachable _ _ => exact hpending
    | turnedDown _ _ _ => exact hpending
    | refused _ _ _ => cases hpending
    | failed _ _ => cases hpending
  | @polled entries entry now _ _ _ _ _ hpolled =>
    cases hpolled with
    | running _ => exact hpending
    | unreachable _ _ => exact hpending
    | failed _ _ => cases hpending
    | exited exitCode _ =>
      have hterm := job.exited_terminal exitCode entry.cancelling entry.tail now
      rw [hpending] at hterm
      cases hterm

/-- An exit leaves a job done exactly if it is a success. -/
theorem JobInstance.exited_isDone (job : JobInstance) (exitCode : Int32) (cancelling : Bool)
    (tail : Option String) (now : DateTime) :
    (job.exited exitCode cancelling tail now).state.isDone = true ↔
      exitCode = 0 ∧ cancelling = false := by
  unfold exited
  split_ifs <;> simp_all [JobState.isDone]

theorem PolledJob.isDone {now : DateTime} {entry : PollEntry} (h : PolledJob now entry job job')
    (hsucceeds : entry.Succeeds) : job'.state.isDone = true := by
  obtain ⟨hresult, hcancelling⟩ := hsucceeds
  cases h with
  | running hother => rw [hresult] at hother; cases hother
  | unreachable _ hother => rw [hresult] at hother; cases hother
  | failed _ hother => rw [hresult] at hother; cases hother
  | exited exitCode hother =>
    rw [hresult] at hother
    cases hother
    exact (job.exited_isDone _ _ _ _).2 ⟨rfl, hcancelling⟩

/-- An active job of which nothing remains to be done ended in a success. -/
theorem JobStep.succeeds {run : WorkflowRun} (h : JobStep s key job label job')
    (hrun : findRun s.daemon.runs key.1 = some run) (hactive : job.state.isActive = true)
    (hdeps : job.state.hasStarted = true → run.depsSucceeded job = true)
    (hidle : job'.state.isDone = true ∨ job'.state = .pending) :
    ∃ now entries, label = .pollsApplied now ∧ s.phase = .polling [] entries ∧
      job.state = .running ∧ ∃ entry ∈ entries, entry.key = key ∧ entry.Succeeds := by
  have hnot := JobState.not_idle_of_isActive hactive
  cases h with
  | same _ => exact absurd hidle hnot
  | marked _ => exact absurd (job.markCancelling_same.2.2.1 ▸ hidle) hnot
  | queued _ hpending _ => exact absurd (.inr hpending) hnot
  | skipped hfound hwaits hbad =>
    -- an active job is Queued here, so all it depends on succeeded
    obtain rfl := Option.some.inj (hfound.symm.trans hrun)
    have hqueued := hwaits.resolve_left fun hpending => hnot (.inr hpending)
    rw [WorkflowRun.depBad_of_depsSucceeded (hdeps (by rw [hqueued]; rfl))] at hbad
    cases hbad
  | launched _ _ _ _ hlaunched =>
    cases hlaunched with
    | started _ _ => rcases hidle with hs | hs <;> cases hs
    | unreachable _ _ => exact absurd hidle hnot
    | turnedDown _ _ _ => exact absurd hidle hnot
    | refused _ _ _ => rcases hidle with hs | hs <;> cases hs
    | failed _ _ => rcases hidle with hs | hs <;> cases hs
  | @polled entries entry now _ hphase hmem hkey hrunning hpolled =>
    cases hpolled with
    | running _ => exact absurd hidle hnot
    | unreachable _ _ => exact absurd hidle hnot
    | failed _ _ => rcases hidle with hs | hs <;> cases hs
    | exited exitCode hresult =>
      have hterm := job.exited_terminal exitCode entry.cancelling entry.tail now
      rcases hidle with hdone | hpending
      · obtain ⟨rfl, hcancel⟩ := (job.exited_isDone _ _ _ _).1 hdone
        exact ⟨now, entries, rfl, hphase, hrunning, entry, hmem, hkey, hresult, hcancel⟩
      · rw [hpending] at hterm
        cases hterm

end Jobs

variable {cfg : Config} {s s' : SchedulerState} {label : Label} {id : String}
  {run run' : WorkflowRun}

/-- Every job of the run is a job of the run after the step, and the other way round. -/
theorem Step.run_jobs (hinv : JobsInv s) (h : Step cfg s label s')
    (hrun : findRun s.daemon.runs id = some run) (hrun' : findRun s'.daemon.runs id = some run') :
    (∀ job ∈ run.jobs, ∃ job' ∈ run'.jobs, JobStep s (id, job.jobId) job label job') ∧
      ∀ job' ∈ run'.jobs, ∃ job ∈ run.jobs, job.jobId = job'.jobId ∧
        JobStep s (id, job.jobId) job label job' := by
  have hinv' := hinv.step h
  refine ⟨fun job hmem => ?_, fun job' hmem' => ?_⟩
  · have hjob := Keyed.get?_of_mem (hinv.run id run hrun).1.nodup hmem
    have hfind : findJob s.daemon.runs (id, job.jobId) = some job :=
      findJob_eq_some.2 ⟨run, hrun, hjob⟩
    obtain ⟨job', hjob', hstep⟩ := h.job hinv.keysInv hfind
    rw [findJob_eq_of_findRun (k := (id, job.jobId)) hrun'] at hjob'
    exact ⟨job', Keyed.mem_of_get? hjob', hstep⟩
  · have hjob' := Keyed.get?_of_mem (hinv'.run id run' hrun').1.nodup hmem'
    have hfind : findJob s'.daemon.runs (id, job'.jobId) = some job' :=
      findJob_eq_some.2 ⟨run', hrun', hjob'⟩
    obtain ⟨job, hjob, hstep⟩ := h.job_before hinv.keysInv hrun hfind
    have hid := findJob_jobId hjob
    rw [findJob_eq_of_findRun (k := (id, job'.jobId)) hrun] at hjob
    exact ⟨job, Keyed.mem_of_get? hjob, hid, by rwa [hid]⟩

/-! ### The status over one step -/

theorem WorkflowRun.status_eq_failed :
    run.status = .failed ↔ ∃ job ∈ run.jobs, job.state.countsFailed = true := by
  simp [WorkflowRun.status, deriveRunState_eq_failed]

theorem WorkflowRun.exists_cancelled (h : run.status = .cancelled) :
    ∃ job ∈ run.jobs, job.state = .cancelled := by
  simpa using exists_cancelled_of_deriveRunState h

theorem WorkflowRun.status_eq_running : run.status = .running ↔
    (∀ job ∈ run.jobs, job.state.countsFailed = false ∧ job.state ≠ .cancelled) ∧
      ∃ job ∈ run.jobs, job.state.isActive = true := by
  simp [WorkflowRun.status, deriveRunState_eq_running]

theorem WorkflowRun.status_eq_succeeded : run.status = .succeeded ↔
    run.jobs ≠ [] ∧ ∀ job ∈ run.jobs, job.state.isDone = true := by
  simp [WorkflowRun.status, deriveRunState_eq_succeeded]

theorem WorkflowRun.status_eq_pending : run.status = .pending ↔
    (∀ job ∈ run.jobs, job.state.isDone = true ∨ job.state = .pending) ∧
      (run.jobs = [] ∨ ∃ job ∈ run.jobs, job.state = .pending) := by
  simp [WorkflowRun.status, deriveRunState_eq_pending]

/-- **A Running run is Pending after a step exactly if the step strands it.** -/
theorem Step.status_pending_iff (hinv : JobsInv s) (h : Step cfg s label s')
    (hrun : findRun s.daemon.runs id = some run) (hrun' : findRun s'.daemon.runs id = some run')
    (hstatus : run.status = .running) : run'.status = .pending ↔ Strands s label run := by
  obtain ⟨hforth, hback⟩ := h.run_jobs hinv hrun hrun'
  obtain ⟨hgood, active, hactive, hisActive⟩ := WorkflowRun.status_eq_running.1 hstatus
  have hid : run.runId = id := Keyed.key_of_get? hrun
  have hri := (hinv.run id run hrun).1
  rw [WorkflowRun.status_eq_pending]
  constructor
  · rintro ⟨hidle, hwaits⟩
    -- an active job ended in a success, all in the same step
    have hends : ∀ job ∈ run.jobs, job.state.isActive = true → ∃ now entries,
        label = .pollsApplied now ∧ s.phase = .polling [] entries ∧ job.state = .running ∧
          ∃ entry ∈ entries, entry.key = (id, job.jobId) ∧ entry.Succeeds := by
      intro job hmem hisActive
      obtain ⟨job', hmem', hstep⟩ := hforth job hmem
      have hjob := Keyed.get?_of_mem hri.nodup hmem
      exact hstep.succeeds hrun hisActive (hri.started job.jobId job hjob) (hidle job' hmem')
    obtain ⟨now, entries, hlabel, hphase, hrunning, -⟩ := hends active hactive hisActive
    refine ⟨⟨now, entries, hlabel, hphase, fun job hmem => ?_⟩, ⟨active, hactive, hrunning⟩, ?_⟩
    · rcases job.state.kinds with hs | hs | hs | hs | hs
      · rw [(hgood job hmem).1] at hs; cases hs
      · exact absurd hs (hgood job hmem).2
      · obtain ⟨-, entries', -, hphase', hrunning, hentry⟩ := hends job hmem hs
        obtain ⟨-, rfl⟩ : ([] : List RunningJob) = [] ∧ entries = entries' := by
          simpa [hphase] using hphase'
        exact .inr (.inr ⟨hrunning, hid ▸ hentry⟩)
      · exact .inl hs
      · exact .inr (.inl hs)
    · rcases hwaits with hnil | ⟨job', hmem', hpending⟩
      · obtain ⟨job', hmem', -⟩ := hforth active hactive
        rw [hnil] at hmem'
        cases hmem'
      · obtain ⟨job, hmem, -, hstep⟩ := hback job' hmem'
        exact ⟨job, hmem, hstep.pending hpending⟩
  · rintro ⟨⟨now, entries, rfl, hphase, hall⟩, -, waiting, hmem, hpending⟩
    have hstays : ∀ job job', JobStep s (id, job.jobId) job (.pollsApplied now) job' →
        job.state = .pending → job'.state = .pending := by
      intro job job' hstep hpending
      cases hstep with
      | same _ => exact hpending
      | polled _ _ _ hrunning _ => rw [hpending] at hrunning; cases hrunning
    refine ⟨fun job' hmem' => ?_, .inr ?_⟩
    · obtain ⟨job, hmem, hsame, hstep⟩ := hback job' hmem'
      rcases hall job hmem with hdone | hpending | ⟨hrunning, entry, hentry, hkey, hsucceeds⟩
      · rw [hstep.terminal (JobState.isTerminal_of_isDone hdone)]
        exact .inl hdone
      · exact .inr (hstays job job' hstep hpending)
      · -- the answer that ends it
        obtain ⟨before, after, -, -, hafter, hpolled⟩ :=
          h.pollsApplied_job hinv.keysInv hphase hentry
        have hjob' := Keyed.get?_of_mem ((hinv.step h).run id run' hrun').1.nodup hmem'
        rw [hkey, hid, findJob_eq_of_findRun (k := (id, job.jobId)) hrun', hsame] at hafter
        obtain rfl : after = job' := Option.some.inj (hafter.symm.trans hjob')
        exact .inl (hpolled.isDone hsucceeds)
    · obtain ⟨job', hmem', hstep⟩ := hforth waiting hmem
      exact ⟨job', hmem', hstays waiting job' hstep hpending⟩

/-- What went wrong with a job stays: the run does not wait again. -/
theorem Step.status_kept (hinv : JobsInv s) (h : Step cfg s label s')
    (hrun : findRun s.daemon.runs id = some run) (hrun' : findRun s'.daemon.runs id = some run') :
    (run.status = .failed → run'.status = .failed) ∧
      (run.status = .cancelled → run'.status ≠ .pending) ∧
      (run.status = .succeeded → run'.status = .succeeded) := by
  obtain ⟨hforth, hback⟩ := h.run_jobs hinv hrun hrun'
  refine ⟨fun hstatus => ?_, fun hstatus hpending => ?_, fun hstatus => ?_⟩
  · obtain ⟨job, hmem, hfailed⟩ := WorkflowRun.status_eq_failed.1 hstatus
    obtain ⟨job', hmem', hstep⟩ := hforth job hmem
    refine WorkflowRun.status_eq_failed.2 ⟨job', hmem', ?_⟩
    rwa [hstep.terminal (JobState.isTerminal_of_countsFailed hfailed)]
  · obtain ⟨job, hmem, hcancelled⟩ := WorkflowRun.exists_cancelled hstatus
    obtain ⟨job', hmem', hstep⟩ := hforth job hmem
    have hidle := (WorkflowRun.status_eq_pending.1 hpending).1 job' hmem'
    rw [hstep.terminal (by rw [hcancelled]; rfl), hcancelled] at hidle
    rcases hidle with hs | hs <;> cases hs
  · obtain ⟨hne, hdone⟩ := WorkflowRun.status_eq_succeeded.1 hstatus
    refine WorkflowRun.status_eq_succeeded.2 ⟨?_, fun job' hmem' => ?_⟩
    · obtain ⟨job, hmem⟩ := List.exists_mem_of_ne_nil _ hne
      obtain ⟨job', hmem', -⟩ := hforth job hmem
      exact List.ne_nil_of_mem hmem'
    · obtain ⟨job, hmem, -, hstep⟩ := hback job' hmem'
      rw [hstep.terminal (JobState.isTerminal_of_isDone (hdone job hmem))]
      exact hdone job hmem

/-- A step that strands no run takes none back to Pending. -/
theorem Step.status_started (hinv : JobsInv s) (h : Step cfg s label s')
    (hkeeps : KeepsActive s label) (hrun : findRun s.daemon.runs id = some run)
    (hrun' : findRun s'.daemon.runs id = some run') (hstatus : run.status ≠ .pending) :
    run'.status ≠ .pending := by
  obtain ⟨hfailed, hcancelled, hsucceeded⟩ := h.status_kept hinv hrun hrun'
  cases hst : run.status with
  | pending => exact absurd hst hstatus
  | running =>
    rw [ne_eq, h.status_pending_iff hinv hrun hrun' hst]
    exact hkeeps run (Keyed.mem_of_get? hrun)
  | succeeded => rw [hsucceeded hst]; decide
  | failed => rw [hfailed hst]; decide
  | cancelled => exact hcancelled hst

/-! ### Runs of the scheduler -/

/-- **No run goes back** in a run of the scheduler whose steps strand none: once Running it is never
Pending again, once Failed it stays Failed, and once Succeeded its jobs have all ended and it stays
Succeeded. -/
theorem status_forward {s₀ : SchedulerState} (hfresh : s₀.Fresh)
    (hs : ((scheduler cfg).guard KeepsActive).Reach s₀ s)
    (hs' : ((scheduler cfg).guard KeepsActive).Reach s s')
    (hrun : findRun s.daemon.runs id = some run) :
    ∃ run', findRun s'.daemon.runs id = some run' ∧
      (run.status = .running → run'.status ≠ .pending) ∧
      (run.status = .failed → run'.status = .failed) ∧
      (run.status = .succeeded → (∀ job ∈ run.jobs, job.state.isTerminal = true) ∧
        run'.status = .succeeded) := by
  have hinv := JobsInv.reach hfresh hs.of_guard
  have hall : JobsInv s' ∧ ∃ run', findRun s'.daemon.runs id = some run' ∧
      (run.status ≠ .pending → run'.status ≠ .pending) ∧
      (run.status = .failed → run'.status = .failed) ∧
      (run.status = .succeeded → run'.status = .succeeded) := by
    refine hs'.invariant (I := fun s' => JobsInv s' ∧ ∃ run', findRun s'.daemon.runs id =
      some run' ∧ (run.status ≠ .pending → run'.status ≠ .pending) ∧
      (run.status = .failed → run'.status = .failed) ∧
      (run.status = .succeeded → run'.status = .succeeded))
      ⟨hinv, run, hrun, fun h => h, fun h => h, fun h => h⟩ ?_
    rintro mid label next - ⟨hmid, run₁, hrun₁, hstarted, hfailed, hsucceeded⟩ ⟨hkeeps, hstep⟩
    have hst := step_of_perform hstep
    obtain ⟨run₂, hrun₂, -⟩ := hst.run_kept hmid.keysInv hrun₁
    obtain ⟨hfailed', -, hsucceeded'⟩ := hst.status_kept hmid hrun₁ hrun₂
    exact ⟨hmid.step hst, run₂, hrun₂,
      fun h => hst.status_started hmid hkeeps hrun₁ hrun₂ (hstarted h),
      fun h => hfailed' (hfailed h), fun h => hsucceeded' (hsucceeded h)⟩
  obtain ⟨-, run', hrun', hstarted, hfailed, hsucceeded⟩ := hall
  refine ⟨run', hrun', fun h => hstarted (by rw [h]; decide), hfailed, fun h => ⟨?_, hsucceeded h⟩⟩
  exact fun job hmem =>
    JobState.isTerminal_of_isDone ((WorkflowRun.status_eq_succeeded.1 h).2 job hmem)

/-- The run whose first job was started is Running, and so it is not Pending after a flush. -/
theorem startsFirst_forward : ∃ s s' run run', (scheduler oneMachine).Reach s s' ∧
    findRun s.daemon.runs "r" = some run ∧ run.status = .running ∧
    findRun s'.daemon.runs "r" = some run' ∧ run'.status ≠ .pending := by
  have hkeeps : ∀ s, ∀ label ∈ startsFirst ++ [.flushed true 1], KeepsActive s label := by
    rintro s label hmem run - ⟨⟨now, entries, rfl, -⟩, -⟩
    simp [startsFirst] at hmem
  obtain ⟨s, hs, hstatus⟩ := Option.bind_eq_some_iff.1 (show
      ((SchedulerState.run oneMachine (.init [.new ⟨4, 8192, []⟩]) startsFirst).bind fun s =>
        (findRun s.daemon.runs "r").map WorkflowRun.status) = some .running by decide)
  obtain ⟨run, hrun, hrunning⟩ := Option.map_eq_some_iff.1 hstatus
  obtain ⟨s', hs'⟩ := Option.isSome_iff_exists.1 (show ((SchedulerState.run oneMachine
      (.init [.new ⟨4, 8192, []⟩]) (startsFirst ++ [.flushed true 1])).isSome) by decide)
  obtain ⟨mid, hmid, hlast⟩ := SchedulerState.run_append.1 hs'
  obtain rfl := Option.some.inj (hmid.symm.trans hs)
  have hstart := SchedulerState.guarded_of_run hs fun s label hmem =>
    hkeeps s label (List.mem_append_left _ hmem)
  have hnext := SchedulerState.guarded_of_run hlast fun s label hmem =>
    hkeeps s label (List.mem_append_right _ hmem)
  obtain ⟨run', hrun', hforward, -⟩ := status_forward (.init _) hstart hnext hrun
  exact ⟨mid, s', run, run', hnext.of_guard, hrun, hrunning, hrun', hforward hrunning⟩

/-- The first of two jobs succeeds before the second, which waits for it, is queued. -/
def succeedsFirst : List Label :=
  [.flushed true 1, .flushDone, .collect, .polled (.ok (.exited 0)) none]

/-- The run is Running, and Pending as soon as the first job succeeded. -/
theorem succeedsFirst_pending : ∃ s s' run run',
    (scheduler oneMachine).Reach (.init [.new ⟨4, 8192, []⟩]) s ∧
      (scheduler oneMachine).Reach s s' ∧
      findRun s.daemon.runs "r" = some run ∧ run.status = .running ∧
      findRun s'.daemon.runs "r" = some run' ∧ run'.status = .pending := by
  obtain ⟨s, hs, hstatus⟩ := Option.bind_eq_some_iff.1 (show
      ((SchedulerState.run oneMachine (.init [.new ⟨4, 8192, []⟩])
        (startsFirst ++ succeedsFirst)).bind fun s =>
        (findRun s.daemon.runs "r").map WorkflowRun.status) = some .running by decide)
  obtain ⟨run, hrun, hrunning⟩ := Option.map_eq_some_iff.1 hstatus
  obtain ⟨s', hs', hstatus'⟩ := Option.bind_eq_some_iff.1 (show
      ((SchedulerState.run oneMachine (.init [.new ⟨4, 8192, []⟩])
        ((startsFirst ++ succeedsFirst) ++ [.pollsApplied 4])).bind fun s =>
        (findRun s.daemon.runs "r").map WorkflowRun.status) = some .pending by decide)
  obtain ⟨run', hrun', hpending⟩ := Option.map_eq_some_iff.1 hstatus'
  obtain ⟨mid, hmid, hlast⟩ := SchedulerState.run_append.1 hs'
  obtain rfl := Option.some.inj (hmid.symm.trans hs)
  exact ⟨mid, s', run, run', SchedulerState.reach_of_run hs, SchedulerState.reach_of_run hlast,
    hrun, hrunning, hrun', hpending⟩

end Roster
