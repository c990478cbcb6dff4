import Roster.Scheduler.Jobs

/-!
# What a step does with one job

`JobStep` lists what can become of a job in one step, with the section that did it and what that
section went by: the dependencies, the outcome of a launch, or the answer of a poll.  Between two
steps nothing else happens to a job (`Step.job`), and a job that was not there is a new one
(`Step.job_new`).
-/

namespace Roster

/-! ### The results -/

/-- What the outcome of its launch made of a job. -/
inductive LaunchedJob (now : DateTime) (outcome : LaunchOutcome) (job : JobInstance) :
    JobInstance → Prop
  | started (log : String) : outcome.result = .ok () →
      LaunchedJob now outcome job (job.started outcome.executions log now)
  | unreachable (reason : String) : outcome.result = .error (.unreachable reason) →
      LaunchedJob now outcome job job
  | turnedDown {reason : String} (node : ℕ) (reasons : List String) :
      outcome.result = .error (.rejected reason) →
      LaunchedJob now outcome job (job.turnedDown node reason reasons)
  | refused {reason : String} (node : ℕ) (reasons : List String) :
      outcome.result = .error (.rejected reason) →
      LaunchedJob now outcome job ((job.turnedDown node reason reasons).fail now)
  | failed (error : ExecutorError) : outcome.result = .error error →
      LaunchedJob now outcome job (addReason (job.fail now) error.toString)

theorem applyLaunch_job {cfg : Config} {now : DateTime} {acc acc' : Applied}
    {outcome : LaunchOutcome} (h : applyLaunch cfg now acc outcome = .ok acc') {job : JobInstance}
    (hjob : findJob acc.daemon.runs outcome.key = some job) :
    ∃ job', findJob acc'.daemon.runs outcome.key = some job' ∧
      LaunchedJob now outcome job job' := by
  have hid := findJob_jobId hjob
  cases applyLaunch_eq_ok h with
  | returned hwhy _ =>
    rcases hwhy with hnone | ⟨reason, hreason⟩
    · rw [hnone] at hjob; cases hjob
    · exact ⟨job, hjob, .unreachable reason hreason⟩
  | started _ hok _ _ =>
    refine ⟨_, findJob_updateJob_self ?_ hjob, .started _ hok⟩
    exact fun _ h => h
  | @turnedDown job₀ reason execution reasons pools job' hjob₀ hresult _ _ hjob' =>
    obtain rfl := Option.some.inj (hjob₀.symm.trans hjob)
    have hid' : job'.jobId = outcome.key.2 := by rw [hjob']; split <;> exact hid
    refine ⟨job', findJob_updateJob_self (fun _ _ => hid') hjob, ?_⟩
    · rw [hjob']
      split
      · exact .turnedDown _ _ hresult
      · exact .refused _ _ hresult
  | failed _ herror _ _ _ =>
    refine ⟨_, findJob_updateJob_self ?_ hjob, .failed _ herror⟩
    exact fun _ h => h

theorem applyLaunch_kept {cfg : Config} {now : DateTime} {acc acc' : Applied}
    {outcome : LaunchOutcome} (h : applyLaunch cfg now acc outcome = .ok acc') :
    KeptExcept [outcome.key] acc.daemon.runs acc'.daemon.runs := by
  cases applyLaunch_eq_ok h with
  | returned _ _ => exact (KeptExcept.refl _).mono (List.nil_subset _)
  | started _ _ _ _ => exact .updateJob fun _ h => h
  | turnedDown hjob _ _ _ hjob' =>
    have hid := findJob_jobId hjob
    refine .updateJob fun _ _ => ?_
    rw [hjob']
    split <;> exact hid
  | failed _ _ _ _ _ => exact .updateJob fun _ h => h

/-- What the answer of its poll made of a job. -/
inductive PolledJob (now : DateTime) (entry : PollEntry) (job : JobInstance) : JobInstance → Prop
  | running : entry.result = .ok .running → PolledJob now entry job job
  | unreachable (reason : String) : entry.result = .error (.unreachable reason) →
      PolledJob now entry job job
  | failed (error : ExecutorError) : entry.result = .error error →
      PolledJob now entry job (job.pollFailed error now)
  | exited (exitCode : Int32) : entry.result = .ok (.exited exitCode) →
      PolledJob now entry job (job.exited exitCode entry.cancelling entry.tail now)

theorem applyPoll_job {now : DateTime} {acc acc' : Applied} {entry : PollEntry}
    (h : applyPoll now acc entry = .ok acc') {job : JobInstance}
    (hjob : findJob acc.daemon.runs entry.key = some job) :
    ∃ job', findJob acc'.daemon.runs entry.key = some job' ∧ PolledJob now entry job job' := by
  cases applyPoll_eq_ok h with
  | same hwhy =>
    rcases hwhy with hnone | hrunning | ⟨reason, hreason⟩
    · rw [hnone] at hjob; cases hjob
    · exact ⟨job, hjob, .running hrunning⟩
    · exact ⟨job, hjob, .unreachable reason hreason⟩
  | failed _ herror _ _ =>
    refine ⟨_, findJob_updateJob_self ?_ hjob, .failed _ herror⟩
    exact fun _ h => h
  | exited _ hexit _ =>
    exact ⟨_, findJob_updateJob_self (fun job h => (job.exited_jobId _ _ _ _).trans h) hjob,
      .exited _ hexit⟩

theorem applyPoll_kept {now : DateTime} {acc acc' : Applied} {entry : PollEntry}
    (h : applyPoll now acc entry = .ok acc') :
    KeptExcept [entry.key] acc.daemon.runs acc'.daemon.runs := by
  cases applyPoll_eq_ok h with
  | same _ => exact (KeptExcept.refl _).mono (List.nil_subset _)
  | failed _ _ _ _ => exact .updateJob fun _ h => h
  | exited _ _ _ => exact .updateJob fun job h => (job.exited_jobId _ _ _ _).trans h

/-! ### Every step -/

/-- What one step did with the job of that key. -/
inductive JobStep (s : SchedulerState) (key : JobKey) (job : JobInstance) :
    Label → JobInstance → Prop
  | same {label : Label} : (label = .cancel key.1 → job.state ≠ .running) →
      JobStep s key job label job
  | marked : job.state = .running → JobStep s key job (.cancel key.1) job.markCancelling
  | queued {run : WorkflowRun} : findRun s.daemon.runs key.1 = some run → job.state = .pending →
      run.depsSucceeded job = true → JobStep s key job .tick job.queue
  | skipped {run : WorkflowRun} {now : DateTime} : findRun s.daemon.runs key.1 = some run →
      job.state = .pending ∨ job.state = .queued → run.depBad job = true →
      JobStep s key job (.cascade now) (job.skip now)
  | launched {outcomes : List LaunchOutcome} {outcome : LaunchOutcome} {now : DateTime}
      {job' : JobInstance} : s.phase = .launching [] outcomes → outcome ∈ outcomes →
      outcome.key = key → job.state = .queued → LaunchedJob now outcome job job' →
      JobStep s key job (.launchesApplied now) job'
  | polled {entries : List PollEntry} {entry : PollEntry} {now : DateTime} {job' : JobInstance} :
      s.phase = .polling [] entries → entry ∈ entries → entry.key = key → job.state = .running →
      PolledJob now entry job job' → JobStep s key job (.pollsApplied now) job'

/-- The jobs of a key are the jobs of its run. -/
theorem findJob_map {runs : List WorkflowRun} {g : WorkflowRun → WorkflowRun}
    (hid : ∀ run, (g run).runId = run.runId) (key : JobKey) :
    findJob (runs.map g) key = (findRun runs key.1).bind fun run => (g run).job? key.2 := by
  have hfind : findRun (runs.map g) key.1 = (findRun runs key.1).map g :=
    Keyed.get?_map fun run _ => hid run
  rw [findJob, hfind, Option.bind_map]
  rfl

/-- Every outcome is applied to the job that was launched, after the outcomes before it. -/
theorem Step.launchesApplied_at {cfg : Config} {s s' : SchedulerState} {now : DateTime}
    {outcomes : List LaunchOutcome} {outcome : LaunchOutcome} (hinv : KeysInv s)
    (h : Step cfg s (.launchesApplied now) s') (hphase : s.phase = .launching [] outcomes)
    (hmem : outcome ∈ outcomes) : ∃ (before : List LaunchOutcome) (acc acc' : Applied)
      (job : JobInstance), before.foldlM (applyLaunch cfg now) ⟨s.daemon, []⟩ = .ok acc ∧
      applyLaunch cfg now acc outcome = .ok acc' ∧
      findJob s.daemon.runs outcome.key = some job ∧ job.state = .queued ∧
      findJob acc.daemon.runs outcome.key = some job ∧
      findJob s'.daemon.runs outcome.key = findJob acc'.daemon.runs outcome.key := by
  cases h with
  | launchesApplied hok =>
    cases hphase
    obtain ⟨hin, -, -⟩ := hinv.phase
    rw [List.map_nil, List.nil_append] at hin
    have hone : ∀ acc acc' outcome, outcome ∈ outcomes →
        applyLaunch cfg now acc outcome = .ok acc' →
        KeptExcept [outcome.key] acc.daemon.runs acc'.daemon.runs :=
      fun _ _ _ _ => applyLaunch_kept
    obtain ⟨before, -, mid, mid', -, hbefore, happly, hsame, hafter⟩ :=
      foldlM_at hone hin.nodup hok hmem
    obtain ⟨job, hjob, hqueued⟩ := hin.found _ (List.mem_map_of_mem hmem)
    exact ⟨before, mid, mid', job, hbefore, happly, hjob, hqueued, hsame.trans hjob, hafter⟩

/-- Every outcome is applied to its job. -/
theorem Step.launchesApplied_job {cfg : Config} {s s' : SchedulerState} {now : DateTime}
    {outcomes : List LaunchOutcome} {outcome : LaunchOutcome} (hinv : KeysInv s)
    (h : Step cfg s (.launchesApplied now) s') (hphase : s.phase = .launching [] outcomes)
    (hmem : outcome ∈ outcomes) : ∃ job job', findJob s.daemon.runs outcome.key = some job ∧
      job.state = .queued ∧ findJob s'.daemon.runs outcome.key = some job' ∧
      LaunchedJob now outcome job job' := by
  obtain ⟨-, acc, acc', job, -, happly, hjob, hqueued, hbefore, hafter⟩ :=
    h.launchesApplied_at hinv hphase hmem
  obtain ⟨job', hjob', hlaunched⟩ := applyLaunch_job happly hbefore
  exact ⟨job, job', hjob, hqueued, hafter.trans hjob', hlaunched⟩

/-- Every answer is applied to its job. -/
theorem Step.pollsApplied_job {cfg : Config} {s s' : SchedulerState} {now : DateTime}
    {entries : List PollEntry} {entry : PollEntry} (hinv : KeysInv s)
    (h : Step cfg s (.pollsApplied now) s') (hphase : s.phase = .polling [] entries)
    (hmem : entry ∈ entries) : ∃ job job', findJob s.daemon.runs entry.key = some job ∧
      job.state = .running ∧ findJob s'.daemon.runs entry.key = some job' ∧
      PolledJob now entry job job' := by
  cases h with
  | pollsApplied hok =>
    cases hphase
    have hin : AllIn _ .running ([] ++ _) := hinv.phase
    rw [List.nil_append] at hin
    have hone : ∀ acc acc' entry, entry ∈ entries → applyPoll now acc entry = .ok acc' →
        KeptExcept [entry.key] acc.daemon.runs acc'.daemon.runs := fun _ _ _ _ => applyPoll_kept
    obtain ⟨-, -, mid, mid', -, -, happly, hbefore, hafter⟩ := foldlM_at hone hin.nodup hok hmem
    obtain ⟨job, hjob, hrunning⟩ := hin.found _ (List.mem_map_of_mem hmem)
    obtain ⟨job', hjob', hpolled⟩ := applyPoll_job happly (hbefore.trans hjob)
    exact ⟨job, job', hjob, hrunning, hafter.trans hjob', hpolled⟩

/-- Nothing else happens to a job. -/
theorem Step.job {cfg : Config} {s s' : SchedulerState} {label : Label} (hinv : KeysInv s)
    (h : Step cfg s label s') {key : JobKey} {job : JobInstance}
    (hjob : findJob s.daemon.runs key = some job) :
    ∃ job', findJob s'.daemon.runs key = some job' ∧ JobStep s key job label job' := by
  obtain ⟨run, hrun, hj⟩ := findJob_eq_some.1 hjob
  have hst := h
  cases h with
  | submit hfresh _ _ =>
    exact ⟨job, by rw [submit_runs hfresh]; exact findJob_append hfresh hjob,
      .same fun h => Label.noConfusion h⟩
  | cancel runId =>
    dsimp only
    rw [findJob_cancelRun, hjob]
    split
    · next hkey =>
      subst hkey
      refine ⟨_, rfl, ?_⟩
      by_cases hrunning : job.state = .running
      · exact .marked hrunning
      · rw [JobInstance.markCancelling, if_neg hrunning]
        exact .same fun _ => hrunning
    · next hkey => exact ⟨job, rfl, .same fun h => absurd (Label.cancel.inj h).symm hkey⟩
  | reorderRuns hperm =>
    exact ⟨job, findJob_eq_some.2 ⟨run, (Keyed.get?_perm hperm hinv.keys.runIds).trans hrun, hj⟩,
      .same fun h => Label.noConfusion h⟩
  | reorderJobs hfound hperm =>
    exact ⟨job, by
      rw [findJob_reorderJobs hfound hperm (hinv.jobIds hfound), hjob],
      .same fun h => Label.noConfusion h⟩
  | gpusBlocked _ hok =>
    obtain ⟨_, _, rfl, -⟩ := blockGpus_eq_ok hok
    exact ⟨job, hjob, .same fun h => Label.noConfusion h⟩
  | tick =>
    refine ⟨if key.2 ∈ run.toQueue then job.queue else job, ?_, ?_⟩
    · dsimp only [advancePending]
      rw [findJob_map fun _ => by rfl, hrun, Option.bind_some, WorkflowRun.advancePending,
        WorkflowRun.job?_updateAll (f := JobInstance.queue) (fun _ => rfl) fun _ => rfl, hj]
      rfl
    · split
      · next hmem =>
        obtain ⟨hpending, hdeps⟩ := (WorkflowRun.mem_toQueue (hinv.jobIds hrun) hj).1 hmem
        exact .queued hrun hpending hdeps
      · exact .same fun h => Label.noConfusion h
  | flushed hok =>
    obtain ⟨_, _, rfl⟩ := flushTransition_eq_ok hok
    exact ⟨job, hjob, .same fun h => Label.noConfusion h⟩
  | cascade now =>
    refine ⟨if key.2 ∈ run.toSkip then job.skip now else job, ?_, ?_⟩
    · dsimp only [cascadeSkipped]
      rw [findJob_map fun _ => by rfl, hrun, Option.bind_some, WorkflowRun.cascadeSkipped,
        WorkflowRun.job?_updateAll (f := JobInstance.skip now) (fun _ => rfl) fun _ => rfl, hj]
      rfl
    · split
      · next hmem =>
        obtain ⟨hwaits, hbad⟩ := (WorkflowRun.mem_toSkip (hinv.jobIds hrun) hj).1 hmem
        exact .skipped hrun hwaits hbad
      · exact .same fun h => Label.noConfusion h
  -- a section on several jobs: it is this job's turn once, or never
  | @launchesApplied daemon checks outcomes now applied hok =>
    by_cases hmem : ∃ outcome ∈ outcomes, outcome.key = key
    · obtain ⟨outcome, hmem, rfl⟩ := hmem
      obtain ⟨job₀, job', hjob₀, hqueued, hjob', hlaunched⟩ := hst.launchesApplied_job hinv rfl hmem
      obtain rfl := Option.some.inj (hjob₀.symm.trans hjob)
      exact ⟨job', hjob', .launched rfl hmem rfl hqueued hlaunched⟩
    · have hone : ∀ acc acc' outcome, outcome ∈ outcomes →
          applyLaunch cfg now acc outcome = .ok acc' →
          KeptExcept [outcome.key] acc.daemon.runs acc'.daemon.runs :=
        fun _ _ _ _ => applyLaunch_kept
      have hkept := foldlM_elsewhere hone hok fun outcome hout heq => hmem ⟨outcome, hout, heq⟩
      exact ⟨job, hkept.trans hjob, .same fun h => Label.noConfusion h⟩
  | @pollsApplied daemon checks entries now applied hok =>
    by_cases hmem : ∃ entry ∈ entries, entry.key = key
    · obtain ⟨entry, hmem, rfl⟩ := hmem
      obtain ⟨job₀, job', hjob₀, hrunning, hjob', hpolled⟩ := hst.pollsApplied_job hinv rfl hmem
      obtain rfl := Option.some.inj (hjob₀.symm.trans hjob)
      exact ⟨job', hjob', .polled rfl hmem rfl hrunning hpolled⟩
    · have hone : ∀ acc acc' entry, entry ∈ entries → applyPoll now acc entry = .ok acc' →
          KeptExcept [entry.key] acc.daemon.runs acc'.daemon.runs :=
        fun _ _ _ _ => applyPoll_kept
      have hkept := foldlM_elsewhere hone hok fun entry hentry heq => hmem ⟨entry, hentry, heq⟩
      exact ⟨job, hkept.trans hjob, .same fun h => Label.noConfusion h⟩
  | _ => exact ⟨job, hjob, .same fun h => Label.noConfusion h⟩

/-- A job that was not there before the step is as `JobInstance::new` made it. -/
theorem Step.job_new {cfg : Config} {s s' : SchedulerState} {label : Label} (hinv : KeysInv s)
    (h : Step cfg s label s') {key : JobKey} {job : JobInstance}
    (hnone : findJob s.daemon.runs key = none) (hjob : findJob s'.daemon.runs key = some job) :
    ∃ jobSpec jobSeq, job = .new jobSpec jobSeq := by
  rcases h.runs hinv with hmoved | ⟨runId, spec, runSeq, jobSeq, now, hfresh, hspec, hruns, -⟩
  · obtain ⟨before, hbefore, -⟩ := hmoved.holds key job hjob
    rw [hnone] at hbefore
    cases hbefore
  · obtain ⟨run, hrun, hj⟩ := findJob_eq_some.1 hjob
    rw [hruns, findRun_append key.1 hfresh] at hrun
    split at hrun
    · obtain rfl := Option.some.inj hrun
      have hmem := Keyed.mem_of_get? hj
      rw [WorkflowRun.jobs_new (Dag.exists_topological hspec).1] at hmem
      obtain ⟨entry, -, rfl⟩ := List.mem_map.1 hmem
      exact ⟨_, _, rfl⟩
    · rw [findJob_eq_some.2 ⟨run, hrun, hj⟩] at hnone
      cases hnone

/-- The jobs of a run that is there are the jobs it had. -/
theorem Step.job_before {cfg : Config} {s s' : SchedulerState} {label : Label} (hinv : KeysInv s)
    (h : Step cfg s label s') {runId : String} {run : WorkflowRun}
    (hrun : findRun s.daemon.runs runId = some run) {id : String} {job' : JobInstance}
    (hjob' : findJob s'.daemon.runs (runId, id) = some job') :
    ∃ job, findJob s.daemon.runs (runId, id) = some job ∧ JobStep s (runId, id) job label job' := by
  rcases h.runs hinv with hmoved | ⟨newId, spec, runSeq, jobSeq, now, hfresh, -, hruns, -⟩
  · obtain ⟨job, hjob, -⟩ := hmoved.holds (runId, id) job' hjob'
    obtain ⟨job₁, hjob₁, hbecame⟩ := h.job hinv hjob
    obtain rfl := Option.some.inj (hjob₁.symm.trans hjob')
    exact ⟨job, hjob, hbecame⟩
  · have hjob : findJob s.daemon.runs (runId, id) = some job' := by
      obtain ⟨run', hrun', hj⟩ := findJob_eq_some.1 hjob'
      rw [hruns, findRun_append _ hfresh, if_neg] at hrun'
      · exact findJob_eq_some.2 ⟨run', hrun', hj⟩
      · rintro rfl
        exact Option.some_ne_none _ (hrun.symm.trans hfresh)
    obtain ⟨job₁, hjob₁, hbecame⟩ := h.job hinv hjob
    obtain rfl := Option.some.inj (hjob₁.symm.trans hjob')
    exact ⟨_, hjob, hbecame⟩

theorem Step.run_kept {cfg : Config} {s s' : SchedulerState} {label : Label} (hinv : KeysInv s)
    (h : Step cfg s label s') {runId : String} {run : WorkflowRun}
    (hrun : findRun s.daemon.runs runId = some run) :
    ∃ run', findRun s'.daemon.runs runId = some run' ∧ run'.spec = run.spec := by
  rcases h.runs hinv with hmoved | ⟨newId, spec, runSeq, jobSeq, now, hfresh, -, hruns, -⟩
  · obtain ⟨run', hrun', hmove⟩ := hmoved.after hrun
    exact ⟨run', hrun', hmove.spec⟩
  · refine ⟨run, ?_, rfl⟩
    rw [hruns, findRun_append _ hfresh, if_neg]
    · exact hrun
    · rintro rfl
      exact Option.some_ne_none _ (hrun.symm.trans hfresh)

/-- A job keeps its description. -/
theorem JobStep.spec {s : SchedulerState} {key : JobKey} {job job' : JobInstance} {label : Label}
    (h : JobStep s key job label job') : job'.spec = job.spec := by
  cases h with
  | same _ => rfl
  | marked _ => exact job.markCancelling_same.2.1
  | queued _ _ _ => rfl
  | skipped _ _ _ => rfl
  | launched _ _ _ _ hlaunched => cases hlaunched <;> rfl
  | polled _ _ _ _ hpolled =>
    cases hpolled with
    | exited _ _ => exact job.exited_spec _ _ _ _
    | _ => rfl

/-- A terminal job stays in its state. -/
theorem JobStep.terminal {s : SchedulerState} {key : JobKey} {job job' : JobInstance}
    {label : Label} (h : JobStep s key job label job') (hterm : job.state.isTerminal = true) :
    job'.state = job.state := by
  cases h with
  | same _ => rfl
  | marked hrunning => rw [hrunning] at hterm; cases hterm
  | queued _ hpending _ => rw [hpending] at hterm; cases hterm
  | skipped _ hwaits _ => rcases hwaits with hs | hs <;> rw [hs] at hterm <;> cases hterm
  | launched _ _ _ hqueued _ => rw [hqueued] at hterm; cases hterm
  | polled _ _ _ hrunning _ => rw [hrunning] at hterm; cases hterm

/-- A Running job stays Running or ends. -/
theorem JobStep.running {s : SchedulerState} {key : JobKey} {job job' : JobInstance}
    {label : Label} (h : JobStep s key job label job') (hrunning : job.state = .running) :
    job'.state = .running ∨ job'.state.isTerminal = true := by
  cases h with
  | same _ => exact .inl hrunning
  | marked _ => exact .inl (job.markCancelling_same.2.2.1.trans hrunning)
  | queued _ hpending _ => rw [hrunning] at hpending; cases hpending
  | skipped _ hwaits _ => rw [hrunning] at hwaits; rcases hwaits with hs | hs <;> cases hs
  | launched _ _ _ hqueued _ => rw [hrunning] at hqueued; cases hqueued
  | polled _ _ _ _ hpolled =>
    cases hpolled with
    | running _ => exact .inl hrunning
    | unreachable _ _ => exact .inl hrunning
    | failed _ _ => exact .inr rfl
    | exited exitCode _ => exact .inr (job.exited_terminal exitCode _ _ _)

/-! ### The flag of a cancel -/

/-- Only a Cancel request sets a job's flag, and only while the job is Running; nothing takes it
back. -/
theorem JobStep.cancelling {s : SchedulerState} {key : JobKey} {job job' : JobInstance}
    {label : Label} (h : JobStep s key job label job') :
    job'.cancelling = true ↔
      job.cancelling = true ∨ (label = .cancel key.1 ∧ job.state = .running) := by
  cases h with
  | same hnot => exact ⟨.inl, fun h => h.elim id fun ⟨heq, hrunning⟩ => absurd hrunning (hnot heq)⟩
  | marked hrunning => simp [JobInstance.markCancelling, hrunning]
  | queued _ _ _ => simp [JobInstance.queue]
  | skipped _ _ _ => simp [JobInstance.skip]
  | launched _ _ _ _ hlaunched =>
    cases hlaunched <;>
      simp [JobInstance.started, JobInstance.turnedDown, JobInstance.fail, addReason]
  | polled _ _ _ _ hpolled =>
    cases hpolled <;>
      simp [JobInstance.pollFailed, JobInstance.fail, addReason]

end Roster
