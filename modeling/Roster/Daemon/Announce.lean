import Roster.Daemon.Follow
import Roster.Data.ChangeLog
import Roster.Scheduler.Numbers

/-!
# What the events tell

Each section of the scheduler leaves the jobs it changed to a flush, which sends one event for each.
So the events of a job are exactly the changes of its state, one edge of its state machine after the
other, and no event of a job comes before the events that say what it waited for.

`Announced` connects the scheduler to the general picture of a log that follows the records of a
store (`ChangeLog.Tracks`, `ChangeLog.Justified`): the records are the states of the jobs, and the
log is the history of which the events are an encoding in numbers.
-/

namespace Roster

/-- The state a job is in when the scheduler starts; a job that comes later is Pending. -/
def firstState (runs : List WorkflowRun) (key : JobKey) : JobState :=
  (stateIn runs key).getD .pending

/-- What an event may tell of a job after another: a move along an edge, or that one more node
turned down a Queued job. -/
def Announces (told state : JobState) : Prop :=
  Edge told state ∨ (told = .queued ∧ state = .queued)

/-- The table shows what the job waited for: its dependencies have succeeded if it has started, and
one of them ended badly if it is Skipped. -/
def AfterDependencies (runs : List WorkflowRun) (key : JobKey) (state : JobState)
    (table : JobKey → JobState) : Prop :=
  ∀ job, findJob runs key = some job →
    (state.hasStarted = true → ∀ dep ∈ job.spec.dependsOn, table (key.1, dep) = .succeeded) ∧
      (state = .skipped → ∃ dep ∈ job.spec.dependsOn, (table (key.1, dep)).isBad = true)

/-- What happened to a job, as an event says it. -/
def IsEventOf (runs : List WorkflowRun) (entry : JobKey × JobState) (event : JobEvent) : Prop :=
  ∃ run job emittedAt, findRun runs entry.1.1 = some run ∧ run.job? entry.1.2 = some job ∧
    event = .new run.runSeq job.jobSeq entry.2 emittedAt

/-- What the scheduler told since it started from `runs₀`: the history behind its events. -/
structure Announced (runs₀ : List WorkflowRun) (s : SchedulerState)
    (history : List (JobKey × JobState)) : Prop where
  tracks : ChangeLog.Tracks Announces (firstState runs₀) (stateIn s.daemon.runs) s.phase.toWrite
    history
  justified : ChangeLog.Justified (AfterDependencies s.daemon.runs) (firstState runs₀)
    (stateIn s.daemon.runs) s.phase.toWrite history
  events : List.Forall₂ (IsEventOf s.daemon.runs) history s.daemon.events
  new : ∀ key, stateIn s.daemon.runs key = none → firstState runs₀ key = .pending

/-! ### Which jobs a section leaves to the flush -/

/-- Sections that apply results leave the jobs whose results say something, in their order. -/
theorem foldlM_written {α : Type} {apply : Applied → α → Exec Applied} (key : α → JobKey)
    (tells : α → Prop) (hwrite : ∀ acc acc' a, apply acc a = .ok acc' →
      acc'.toWrite = acc.toWrite ∨ (tells a ∧ acc'.toWrite = acc.toWrite ++ [key a]))
    {results : List α} {acc acc' : Applied} (h : results.foldlM apply acc = .ok acc') :
    ∃ written : List α, written.Sublist results ∧ (∀ a ∈ written, tells a) ∧
      acc'.toWrite = acc.toWrite ++ written.map key := by
  induction results generalizing acc with
  | nil =>
    obtain rfl := Exec.pure_eq_ok.1 h
    exact ⟨[], .slnil, by simp, by simp⟩
  | cons a results ih =>
    rw [List.foldlM_cons, Exec.bind_eq_ok] at h
    obtain ⟨mid, hmid, hrest⟩ := h
    obtain ⟨written, hsub, htells, hwritten⟩ := ih hrest
    rcases hwrite acc mid a hmid with hsame | ⟨htell, hsnoc⟩
    · exact ⟨written, hsub.cons a, htells, hsame ▸ hwritten⟩
    · refine ⟨a :: written, hsub.cons_cons a, List.forall_mem_cons.2 ⟨htell, htells⟩, ?_⟩
      rw [hwritten, hsnoc, List.map_cons, List.append_assoc, List.singleton_append]

/-- The launch of a job came to something: it was not just out of reach. -/
def LaunchOutcome.Tells (outcome : LaunchOutcome) : Prop :=
  ∀ reason, outcome.result ≠ .error (.unreachable reason)

/-- The poll of a job came to something: it ended, or the node answered with an error. -/
def PollEntry.Tells (entry : PollEntry) : Prop :=
  entry.result ≠ .ok .running ∧ ∀ reason, entry.result ≠ .error (.unreachable reason)

theorem applyLaunch_written {cfg : Config} {now : DateTime} {acc acc' : Applied}
    {outcome : LaunchOutcome} (h : applyLaunch cfg now acc outcome = .ok acc') :
    acc'.toWrite = acc.toWrite ∨
      (outcome.Tells ∧ acc'.toWrite = acc.toWrite ++ [outcome.key]) := by
  cases applyLaunch_eq_ok h with
  | returned _ _ => exact .inl rfl
  | started _ hok _ _ => exact .inr ⟨fun reason heq => by simp [hok] at heq, rfl⟩
  | turnedDown _ hrejected _ _ _ =>
    exact .inr ⟨fun reason heq => by simp [hrejected] at heq, rfl⟩
  | failed _ herror hne _ _ =>
    refine .inr ⟨fun reason heq => hne reason ?_, rfl⟩
    exact Except.error.inj (herror.symm.trans heq)

theorem applyPoll_written {now : DateTime} {acc acc' : Applied} {entry : PollEntry}
    (h : applyPoll now acc entry = .ok acc') :
    acc'.toWrite = acc.toWrite ∨ (entry.Tells ∧ acc'.toWrite = acc.toWrite ++ [entry.key]) := by
  cases applyPoll_eq_ok h with
  | same _ => exact .inl rfl
  | failed _ herror hne _ =>
    refine .inr ⟨⟨fun heq => by simp [herror] at heq, fun reason heq => hne reason ?_⟩, rfl⟩
    exact Except.error.inj (herror.symm.trans heq)
  | exited _ hexit _ =>
    exact .inr ⟨⟨fun heq => by simp [hexit] at heq, fun reason heq => by simp [hexit] at heq⟩, rfl⟩

theorem LaunchedJob.announces {now : DateTime} {outcome : LaunchOutcome} {job job' : JobInstance}
    (h : LaunchedJob now outcome job job') (hqueued : job.state = .queued)
    (htells : outcome.Tells) : Announces job.state job'.state := by
  cases h with
  | started _ _ => rw [hqueued]; exact .inl .start
  | unreachable reason hreason => exact absurd hreason (htells reason)
  | turnedDown _ _ _ => exact .inr ⟨hqueued, hqueued⟩
  | refused _ _ _ => rw [hqueued]; exact .inl .refuse
  | failed _ _ => rw [hqueued]; exact .inl .refuse

theorem PolledJob.announces {now : DateTime} {entry : PollEntry} {job job' : JobInstance}
    (h : PolledJob now entry job job') (hrunning : job.state = .running) (htells : entry.Tells) :
    Announces job.state job'.state := by
  rw [hrunning]
  cases h with
  | running hresult => exact absurd hresult htells.1
  | unreachable reason hreason => exact absurd hreason (htells.2 reason)
  | failed _ _ => exact .inl .fail
  | exited _ _ =>
    unfold JobInstance.exited
    split
    · exact .inl .cancel
    · split
      · exact .inl .succeed
      · exact .inl .fail

/-- The keys of some jobs of each run are distinct. -/
theorem KeysNodup.nodup_flatMap {runs : List WorkflowRun} (h : KeysNodup runs)
    {p : WorkflowRun → JobInstance → Bool} :
    (runs.flatMap fun run => ((run.jobs.filter (p run)).map JobInstance.jobId).map fun jobId =>
      ((run.runId, jobId) : JobKey)).Nodup := by
  have hall := h.nodup
  rw [allJobs, List.map_flatMap] at hall
  refine hall.sublist (List.Sublist.flatMap_right runs fun run _ => ?_)
  rw [List.map_map, List.map_map]
  exact List.filter_sublist.map _

theorem mem_flatMap_keys {runs : List WorkflowRun} (h : KeysNodup runs)
    {ids : WorkflowRun → List String} {key : JobKey} :
    (key ∈ runs.flatMap fun run => (ids run).map fun jobId => (run.runId, jobId)) ↔
      ∃ run, findRun runs key.1 = some run ∧ key.2 ∈ ids run := by
  simp only [List.mem_flatMap, List.mem_map]
  constructor
  · rintro ⟨run, hmem, jobId, hjobId, rfl⟩
    exact ⟨run, (Keyed.get?_eq_some h.runIds).2 ⟨hmem, rfl⟩, hjobId⟩
  · rintro ⟨run, hrun, hmem⟩
    exact ⟨run, Keyed.mem_of_get? hrun, key.2, hmem, Prod.ext (findRun_runId hrun) rfl⟩

/-- What a section does to a job it leaves to the flush. -/
theorem Step.toWrite_announces {cfg : Config} {s s' : SchedulerState} {label : Label}
    (hinv : JobsInv s) (h : Step cfg s label s') (hnil : s.phase.toWrite = []) :
    s'.phase.toWrite.Nodup ∧ ∀ key ∈ s'.phase.toWrite, ∃ job job',
      findJob s.daemon.runs key = some job ∧ findJob s'.daemon.runs key = some job' ∧
        Announces job.state job'.state := by
  have hkeys := hinv.keys
  have hst := h
  have hnone : ∀ {phase : Phase}, phase.toWrite = [] → phase.toWrite.Nodup ∧
      ∀ key ∈ phase.toWrite, ∃ job job', findJob s.daemon.runs key = some job ∧
        findJob s'.daemon.runs key = some job' ∧ Announces job.state job'.state := by
    intro phase hphase
    rw [hphase]
    exact ⟨List.nodup_nil, fun _ hmem => by cases hmem⟩
  cases h with
  | tick =>
    refine ⟨hkeys.nodup_flatMap, fun key hmem => ?_⟩
    obtain ⟨run, hrun, hqueue⟩ := (mem_flatMap_keys hkeys).1 hmem
    have hnodup := hkeys.jobIds run (Keyed.mem_of_get? hrun)
    obtain ⟨job, hjob, hid⟩ := List.mem_map.1 hqueue
    have hj : run.job? key.2 = some job :=
      hid ▸ Keyed.get?_of_mem hnodup (List.mem_filter.1 hjob).1
    obtain ⟨hpending, -⟩ := (WorkflowRun.mem_toQueue hnodup hj).1 hqueue
    refine ⟨job, job.queue, findJob_eq_some.2 ⟨run, hrun, hj⟩, ?_, ?_⟩
    · dsimp only [advancePending]
      rw [findJob_map fun _ => by rfl, hrun, Option.bind_some, WorkflowRun.advancePending,
        WorkflowRun.job?_updateAll (f := JobInstance.queue) (fun _ => rfl) fun _ => rfl, hj]
      exact congrArg some (if_pos hqueue)
    · rw [hpending]
      exact .inl .queue
  | cascade now =>
    refine ⟨hkeys.nodup_flatMap, fun key hmem => ?_⟩
    obtain ⟨run, hrun, hskip⟩ := (mem_flatMap_keys hkeys).1 hmem
    have hnodup := hkeys.jobIds run (Keyed.mem_of_get? hrun)
    obtain ⟨job, hjob, hid⟩ := List.mem_map.1 hskip
    have hj : run.job? key.2 = some job :=
      hid ▸ Keyed.get?_of_mem hnodup (List.mem_filter.1 hjob).1
    obtain ⟨hwaits, hbad⟩ := (WorkflowRun.mem_toSkip hnodup hj).1 hskip
    refine ⟨job, job.skip now, findJob_eq_some.2 ⟨run, hrun, hj⟩, ?_, ?_⟩
    · dsimp only [cascadeSkipped]
      rw [findJob_map fun _ => by rfl, hrun, Option.bind_some, WorkflowRun.cascadeSkipped,
        WorkflowRun.job?_updateAll (f := JobInstance.skip now) (fun _ => rfl) fun _ => rfl, hj]
      exact congrArg some (if_pos hskip)
    · -- a Queued job is not skipped, so the move is along an edge
      have hmove : StateMove ScheduleOutcome run job .skipped := .skip hwaits hbad
      rcases hmove.edge ((hinv.run key.1 run hrun).1.started key.2 job hj) with hsame | hedge
      · rcases hwaits with hs | hs <;> rw [hs] at hsame <;> cases hsame
      · exact .inl hedge
  | @launchesApplied _ _ outcomes now applied hok =>
    obtain ⟨written, hsub, htells, hwritten⟩ :=
      foldlM_written LaunchOutcome.key LaunchOutcome.Tells (fun _ _ _ => applyLaunch_written) hok
    rw [List.nil_append] at hwritten
    obtain ⟨hin, -, -⟩ := hinv.phase
    rw [List.map_nil, List.nil_append] at hin
    dsimp only [Phase.toWrite]
    rw [hwritten]
    refine ⟨hin.nodup.sublist (hsub.map _), fun key hmem => ?_⟩
    obtain ⟨outcome, houtcome, rfl⟩ := List.mem_map.1 hmem
    obtain ⟨job, job', hjob, hqueued, hjob', hlaunched⟩ :=
      hst.launchesApplied_job hinv.keysInv rfl (hsub.subset houtcome)
    exact ⟨job, job', hjob, hjob', hlaunched.announces hqueued (htells outcome houtcome)⟩
  | @pollsApplied _ _ entries now applied hok =>
    obtain ⟨written, hsub, htells, hwritten⟩ :=
      foldlM_written PollEntry.key PollEntry.Tells (fun _ _ _ => applyPoll_written) hok
    rw [List.nil_append] at hwritten
    have hin : AllIn _ .running ([] ++ _) := hinv.phase
    rw [List.nil_append] at hin
    dsimp only [Phase.toWrite]
    rw [hwritten]
    refine ⟨hin.nodup.sublist (hsub.map _), fun key hmem => ?_⟩
    obtain ⟨entry, hentry, rfl⟩ := List.mem_map.1 hmem
    obtain ⟨job, job', hjob, hrunning, hjob', hpolled⟩ :=
      hst.pollsApplied_job hinv.keysInv rfl (hsub.subset hentry)
    exact ⟨job, job', hjob, hjob', hpolled.announces hrunning (htells entry hentry)⟩
  | flushed _ => cases hnil
  | flushDone next => exact hnone (by cases next <;> rfl)
  | submit _ _ _ => exact hnone hnil
  | cancel _ => exact hnone hnil
  | reorderRuns _ => exact hnone hnil
  | reorderJobs _ _ => exact hnone hnil
  | _ => exact hnone rfl

/-! ### What a job waited for -/

/-- A job that moves waited for what the table shows before the section. -/
theorem StateMove.waited {run : WorkflowRun} (hinv : RunInv run) {id : String} {job : JobInstance}
    (hjob : run.job? id = some job) {state' : JobState}
    (h : StateMove ScheduleOutcome run job state') :
    (state'.hasStarted = true → run.depsSucceeded job = true) ∧
      (state' = .skipped → run.depBad job = true) := by
  cases h with
  | stay => exact ⟨hinv.started id job hjob, hinv.skipped id job hjob⟩
  | queue _ hdeps => exact ⟨fun _ => hdeps, fun h => JobState.noConfusion h⟩
  | skip _ hbad => exact ⟨fun h => Bool.noConfusion h, fun _ => hbad⟩
  | outcome hout =>
    refine ⟨fun _ => hinv.started id job hjob ?_, fun h => ?_⟩
    · rcases hout.outcome.1 with hs | hs <;> rw [hs] <;> rfl
    · have hstarted := hout.outcome.2
      rw [h] at hstarted
      cases hstarted

/-- What a job waited for stays: a state it waits for is final. -/
theorem stable_afterDependencies (runs : List WorkflowRun) :
    ChangeLog.Stable Announces (AfterDependencies runs) := by
  intro key state table key' state' hafter hannounces job hjob
  obtain ⟨hstarted, hskipped⟩ := hafter job hjob
  -- no event follows one that tells a final state
  have hfinal : ∀ other, (table other).isTerminal = true →
      Function.update table key' state' other = table other := by
    intro other hterm
    by_cases heq : other = key'
    · subst heq
      rcases hannounces with hedge | ⟨hqueued, -⟩
      · generalize table other = old at hterm hedge
        cases hedge <;> cases hterm
      · rw [hqueued] at hterm
        cases hterm
    · rw [Function.update_of_ne heq]
  refine ⟨fun hst dep hdep => ?_, fun hst => ?_⟩
  · have hdone := hstarted hst dep hdep
    rw [hfinal _ (by rw [hdone]; rfl), hdone]
  · obtain ⟨dep, hdep, hbad⟩ := hskipped hst
    exact ⟨dep, hdep, by rwa [hfinal _ (JobState.isTerminal_of_isBad hbad)]⟩

theorem AfterDependencies.of_moved {runs : List WorkflowRun} {key : JobKey} {run : WorkflowRun}
    (hrun : findRun runs key.1 = some run) (hinv : RunInv run) {job : JobInstance}
    (hjob : run.job? key.2 = some job) {runs' : List WorkflowRun} {job' : JobInstance}
    (hjob' : findJob runs' key = some job') (hspec : job'.spec = job.spec)
    (hmove : StateMove ScheduleOutcome run job job'.state) (base : JobKey → JobState) :
    AfterDependencies runs' key job'.state fun k => (stateIn runs k).getD (base k) := by
  intro found hfound
  obtain rfl := Option.some.inj (hfound.symm.trans hjob')
  obtain ⟨hstarted, hskipped⟩ := hmove.waited hinv hjob
  rw [hspec]
  dsimp only
  refine ⟨fun hst dep hdep => ?_, fun hst => ?_⟩
  · rw [stateIn_eq_stateOf hrun, WorkflowRun.depsSucceeded_iff.1 (hstarted hst) dep hdep]
    rfl
  · obtain ⟨dep, hdep, state, hstate, hbad⟩ := WorkflowRun.depBad_iff.1 (hskipped hst)
    exact ⟨dep, hdep, by rwa [stateIn_eq_stateOf hrun, hstate]⟩

/-! ### Every step -/

section

variable {cfg : Config} {s s' : SchedulerState} {label : Label}

/-- A flush of a job that is there sends its event. -/
theorem flushTransition_event {daemon daemon' : DaemonState} {key : JobKey} {written : Bool}
    {emittedAt : ℕ} (h : flushTransition cfg daemon key written emittedAt = .ok daemon')
    {job : JobInstance} (hjob : findJob daemon.runs key = some job) :
    daemon'.runs = daemon.runs ∧ ∃ event, IsEventOf daemon.runs (key, job.state) event ∧
      daemon'.events = daemon.events ++ [event] := by
  obtain ⟨run, hrun, hj⟩ := findJob_eq_some.1 hjob
  rw [flushTransition, hrun] at h
  dsimp only at h
  rw [hj] at h
  simp only [Exec.bind_eq_ok, Exec.pure_eq_ok] at h
  obtain ⟨node, -, rfl⟩ := h
  exact ⟨rfl, _, ⟨run, job, emittedAt, hrun, hj, rfl⟩, rfl⟩

/-- An event stays the event of what it told. -/
theorem IsEventOf.step (hinv : KeysInv s) (h : Step cfg s label s') {entry : JobKey × JobState}
    {event : JobEvent} (hevent : IsEventOf s.daemon.runs entry event) :
    IsEventOf s'.daemon.runs entry event := by
  obtain ⟨run, job, emittedAt, hrun, hj, rfl⟩ := hevent
  obtain ⟨run', hrun', hrunSeq⟩ := h.runSeq_kept hinv hrun
  obtain ⟨job', hjob', hbecame⟩ := h.job hinv (findJob_eq_some.2 ⟨run, hrun, hj⟩)
  rw [findJob_eq_of_findRun hrun'] at hjob'
  exact ⟨run', job', emittedAt, hrun', hjob', by rw [hrunSeq, hbecame.jobSeq]⟩

/-- What a job of the run waits for does not change. -/
theorem AfterDependencies.step (hinv : KeysInv s) (h : Step cfg s label s') {key : JobKey}
    {state : JobState} (hkey : stateIn s.daemon.runs key = some state) {state' : JobState}
    {table : JobKey → JobState} (hafter : AfterDependencies s.daemon.runs key state' table) :
    AfterDependencies s'.daemon.runs key state' table := by
  intro job' hjob'
  obtain ⟨job, hjob, -⟩ := stateIn_eq_some.1 hkey
  obtain ⟨job'', hjob'', hbecame⟩ := h.job hinv hjob
  obtain rfl := Option.some.inj (hjob''.symm.trans hjob')
  rw [hbecame.spec]
  exact hafter job hjob

/-- A job that is there stays. -/
theorem Step.stateIn_none (hinv : KeysInv s) (h : Step cfg s label s') {key : JobKey}
    (hnone : stateIn s'.daemon.runs key = none) : stateIn s.daemon.runs key = none := by
  cases hkey : stateIn s.daemon.runs key with
  | none => rfl
  | some state =>
    obtain ⟨job, hjob, -⟩ := stateIn_eq_some.1 hkey
    obtain ⟨job', hjob', -⟩ := h.job hinv hjob
    rw [stateIn_eq_none, hjob'] at hnone
    cases hnone

variable {runs₀ : List WorkflowRun} {history : List (JobKey × JobState)}

/-- Jobs that come, while the others stay in their states. -/
theorem Announced.extend (h : Announced runs₀ s history) (hinv : KeysInv s)
    (hstep : Step cfg s label s') (htoWrite : s'.phase.toWrite = s.phase.toWrite)
    (hevents : s'.daemon.events = s.daemon.events)
    (hkept : ∀ key state, stateIn s.daemon.runs key = some state →
      stateIn s'.daemon.runs key = some state)
    (hnew : ∀ key state, stateIn s.daemon.runs key = none →
      stateIn s'.daemon.runs key = some state → state = .pending) : Announced runs₀ s' history where
  tracks := htoWrite ▸ h.tracks.extend hkept fun key state hnone hstate =>
    (h.new key hnone).trans (hnew key state hnone hstate).symm
  justified := htoWrite ▸ h.justified.mono h.tracks hkept fun _ _ hkey _ _ =>
    AfterDependencies.step hinv hstep hkey
  events := hevents ▸ h.events.imp fun _ _ => IsEventOf.step hinv hstep
  new key hnone := h.new key (hstep.stateIn_none hinv hnone)

/-- Jobs that change, and are left to the flush. -/
theorem Announced.change (h : Announced runs₀ s history) (hinv : JobsInv s)
    (hstep : Step cfg s label s') (hmoved : RunsMoved s.daemon.runs s'.daemon.runs)
    (hleft : LeftToFlush s s') (hnil : s.phase.toWrite = [])
    (hevents : s'.daemon.events = s.daemon.events) : Announced runs₀ s' history := by
  obtain ⟨hnodup, hannounces⟩ := hstep.toWrite_announces hinv hnil
  have htracks := h.tracks
  rw [hnil] at htracks
  refine ⟨htracks.change hnodup (fun key hkey => ?_) hleft.kept, .change ?_ htracks ?_,
    hevents ▸ h.events.imp fun _ _ => IsEventOf.step hinv.keysInv hstep,
    fun key hnone => h.new key (hstep.stateIn_none hinv.keysInv hnone)⟩
  · obtain ⟨job, job', hjob, hjob', hmove⟩ := hannounces key hkey
    exact ⟨_, _, stateIn_eq_some.2 ⟨job, hjob, rfl⟩, stateIn_eq_some.2 ⟨job', hjob', rfl⟩, hmove⟩
  · refine h.justified.logged.mono fun entry hmem table hafter => ?_
    obtain ⟨state, hstate⟩ := h.tracks.known entry hmem
    exact AfterDependencies.step hinv.keysInv hstep hstate hafter
  · -- what a job waited for is in the table before the section
    intro key _ state' hstate'
    obtain ⟨job', hjob', rfl⟩ := stateIn_eq_some.1 hstate'
    obtain ⟨job, hjob, -⟩ := hmoved.holds key job' hjob'
    obtain ⟨run, hrun, hj, hrunInv⟩ := hinv.runOf hjob
    obtain ⟨run', hrun', hmove⟩ := hmoved.after hrun
    rcases hmove.job key.2 with ⟨hnone, -⟩ | ⟨job₀, job₁, hj₀, hj₁, hspec, hstate⟩
    · rw [hnone] at hj
      cases hj
    · obtain rfl := Option.some.inj (hj₀.symm.trans hj)
      have hjob₁ := findJob_eq_some.2 ⟨run', hrun', hj₁⟩
      obtain rfl := Option.some.inj (hjob₁.symm.trans hjob')
      exact .of_moved hrun hrunInv hj hjob' hspec hstate _

/-- The flush sends the event of the next job. -/
theorem Announced.flush (h : Announced runs₀ s history) (hinv : KeysInv s)
    (hstep : Step cfg s label s') {key : JobKey} {toWrite : List JobKey}
    (htoWrite : s.phase.toWrite = key :: toWrite) (htoWrite' : s'.phase.toWrite = toWrite)
    (hruns : s'.daemon.runs = s.daemon.runs) {job : JobInstance}
    (hjob : findJob s.daemon.runs key = some job) {event : JobEvent}
    (hevent : IsEventOf s.daemon.runs (key, job.state) event)
    (hevents : s'.daemon.events = s.daemon.events ++ [event]) :
    Announced runs₀ s' (history ++ [(key, job.state)]) := by
  have hstate : stateIn s.daemon.runs key = some job.state := stateIn_eq_some.2 ⟨job, hjob, rfl⟩
  have htracks := h.tracks
  have hjustified := h.justified
  rw [htoWrite] at htracks hjustified
  refine ⟨?_, ?_, ?_, fun key hnone => h.new key (hstep.stateIn_none hinv hnone)⟩
  · rw [htoWrite', hruns]
    exact htracks.flush hstate
  · rw [htoWrite', hruns]
    exact hjustified.flush (stable_afterDependencies _) htracks hstate
  · rw [hevents, hruns]
    exact List.rel_append h.events (.cons hevent .nil)

/-- Every step keeps the events in line with what happened to the jobs. -/
theorem Announced.step (h : Announced runs₀ s history) (hinv : JobsInv s)
    (hstep : Step cfg s label s') : ∃ history', Announced runs₀ s' history' := by
  have hkeys := hinv.keysInv
  cases hstep.kind with
  | submit hfresh haccepts =>
    refine ⟨history, h.extend hkeys hstep rfl rfl (fun key state hstate => ?_) ?_⟩
    · obtain ⟨job, hjob, rfl⟩ := stateIn_eq_some.1 hstate
      rw [submit_runs hfresh]
      exact stateIn_eq_some.2 ⟨job, findJob_append hfresh hjob, rfl⟩
    · intro key state hnone hstate
      obtain ⟨job, hjob, rfl⟩ := stateIn_eq_some.1 hstate
      obtain ⟨jobSpec, jobSeq, rfl⟩ := hstep.job_new hkeys (stateIn_eq_none.1 hnone) hjob
      rfl
  | @flushed daemon checks key toWrite next _ _ daemon' hok =>
    obtain ⟨state, hstate⟩ := h.tracks.present key List.mem_cons_self
    obtain ⟨job, hjob, rfl⟩ := stateIn_eq_some.1 hstate
    obtain ⟨hruns, event, hevent, hevents⟩ := flushTransition_event hok hjob
    exact ⟨_, h.flush hkeys hstep rfl rfl hruns hjob hevent hevents⟩
  | silent hsilent =>
    have hevents := (hstep.numbersKept hkeys hsilent).events
    have hleft := hstep.leftToFlush hkeys hsilent
    rcases hleft.pending with hnil | ⟨htoWrite, hsame⟩
    · exact ⟨history,
        h.change hinv hstep (hstep.runs_silent hkeys hsilent) hleft hnil hevents⟩
    · refine ⟨history, h.extend hkeys hstep htoWrite hevents (fun key state hstate => ?_)
        fun key state hnone hstate => ?_⟩
      · exact (hsame key).trans hstate
      · exact absurd (hnone.symm.trans ((hsame key).symm.trans hstate)) (by simp)

end

/-! ### Runs -/

/-- Where the events begin: nothing is left to write, and none was sent. -/
structure SchedulerState.Starts (s : SchedulerState) : Prop where
  inv : JobsInv s
  numbered : Numbered s.daemon
  toWrite : s.phase.toWrite = []
  events : s.daemon.events = []

theorem SchedulerState.Starts.init (pools : List ResourcePool) :
    (SchedulerState.init pools).Starts where
  inv := (SchedulerState.Fresh.init pools).jobsInv
  numbered := .of_nil rfl
  toWrite := rfl
  events := rfl

theorem SchedulerState.Starts.announced {s : SchedulerState} (h : s.Starts) :
    Announced s.daemon.runs s [] where
  tracks := by
    rw [h.toWrite]
    exact .start fun key state hstate => by rw [firstState, hstate, Option.getD_some]
  justified := by
    rw [h.toWrite]
    exact ⟨.nil, fun _ hmem => by cases hmem⟩
  events := by rw [h.events]; exact .nil
  new key hnone := by rw [firstState, hnone, Option.getD_none]

/-- What holds in every run of the scheduler. -/
theorem announced_of_reach {cfg : Config} {s₀ s : SchedulerState} (hstart : s₀.Starts)
    (h : (scheduler cfg).Reach s₀ s) : JobsInv s ∧ Numbered s.daemon ∧
      ∃ history, Announced s₀.daemon.runs s history := by
  refine h.invariant (I := fun s => JobsInv s ∧ Numbered s.daemon ∧
    ∃ history, Announced s₀.daemon.runs s history)
    ⟨hstart.inv, hstart.numbered, [], hstart.announced⟩ ?_
  rintro s label s' - ⟨hinv, hnumbered, history, hannounced⟩ hperform
  have hstep := step_of_perform hperform
  exact ⟨hinv.step hstep, hnumbered.step hinv.keysInv hstep, hannounced.step hinv hstep⟩

/-- What happened behind an event, after what happened behind the events before it. -/
theorem Announced.split {runs₀ : List WorkflowRun} {s : SchedulerState}
    {history : List (JobKey × JobState)} (h : Announced runs₀ s history)
    {before after : List JobEvent} {event : JobEvent}
    (heq : s.daemon.events = before ++ event :: after) :
    ∃ told entry rest, history = told ++ entry :: rest ∧
      List.Forall₂ (IsEventOf s.daemon.runs) told before ∧
      IsEventOf s.daemon.runs entry event := by
  have hevents := h.events
  rw [heq] at hevents
  have hbefore := List.forall₂_take_append _ _ _ hevents
  have hrest := List.forall₂_drop_append _ _ _ hevents
  obtain ⟨entry, rest, hentry, -, hdrop⟩ := List.forall₂_cons_right_iff.1 hrest
  exact ⟨history.take before.length, entry, rest,
    by rw [← hdrop, List.take_append_drop], hbefore, hentry⟩

/-! ### Reading the events -/

/-- What the events tell of the job with this number, as a subscriber reads them. -/
def eventsOf (events : List JobEvent) (jobSeq : ℕ) : List JobState :=
  (events.filter fun event => decide (event.jobSeq = .ofNat jobSeq)).filterMap JobEvent.state

/-- Numbers below the count of all 64-bit words are told apart in an event. -/
theorem UInt64.eq_of_ofNat_eq {m n : ℕ} (hm : m < UInt64.size) (hn : n < UInt64.size)
    (h : UInt64.ofNat m = UInt64.ofNat n) : m = n := by
  have htoNat := congrArg UInt64.toNat h
  rwa [UInt64.toNat_ofNat_of_lt' hm, UInt64.toNat_ofNat_of_lt' hn] at htoNat

/-- The events of a job's number are the history of the job. -/
theorem told_of_events {daemon : DaemonState} (hnumbered : Numbered daemon)
    (hcount : daemon.jobCounter ≤ UInt64.size) {history : List (JobKey × JobState)}
    {events : List JobEvent} (h : List.Forall₂ (IsEventOf daemon.runs) history events)
    {key : JobKey} {job : JobInstance} (hjob : findJob daemon.runs key = some job) :
    eventsOf events job.jobSeq = ChangeLog.told history key := by
  have hlt := hnumbered.job key job hjob
  induction h with
  | nil => rfl
  | @cons entry event history events hevent _ ih =>
    obtain ⟨run, job', emittedAt, hrun, hj, rfl⟩ := hevent
    have hjob' : findJob daemon.runs entry.1 = some job' := findJob_eq_some.2 ⟨run, hrun, hj⟩
    have hlt' := hnumbered.job entry.1 job' hjob'
    have hkey : UInt64.ofNat job'.jobSeq = UInt64.ofNat job.jobSeq ↔ entry.1 = key := by
      constructor
      · intro heq
        refine hnumbered.jobInj _ _ _ _ hjob' hjob (UInt64.eq_of_ofNat_eq ?_ ?_ heq)
        · exact hlt'.trans_le hcount
        · exact hlt.trans_le hcount
      · rintro rfl
        rw [Option.some.inj (hjob'.symm.trans hjob)]
    have hseq : (JobEvent.new run.runSeq job'.jobSeq entry.2 emittedAt).jobSeq =
        .ofNat job'.jobSeq := rfl
    unfold eventsOf ChangeLog.told at ih ⊢
    rw [List.filter_cons, List.filter_cons]
    simp only [hseq, hkey, decide_eq_true_eq]
    split
    · rw [List.filterMap_cons_some (JobEvent.state_new _ _ _ _), List.map_cons, ih]
    · exact ih

end Roster
