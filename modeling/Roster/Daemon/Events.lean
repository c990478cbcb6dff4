import Roster.Daemon.Announce
import Roster.Daemon.Restart
import Roster.Scheduler.Status

/-!
# The event stream

What a subscriber can rely on that reads every event since the controller started: the events of a
job are the changes of its state (`events_tell_changes`), an event names one job
(`event_names_job`), and it comes after the events of what the job waited for
(`events_after_dependencies`).  All of it holds after a restart as well, where jobs begin in the
state they are taken back in (`Recoverable.starts`).
-/

namespace Roster

/-! ### After a restart -/

section

variable {cfg : Config} {found : JobKey → Option JobHandle} {now : DateTime}

/-- Taking back a job leaves the jobs' numbers. -/
theorem takeBackJob_jobSeq {nodes : List Node} {runId : String} {acc acc' : TakingBack}
    {row : JobRow} (h : takeBackJob nodes found runId now acc row = .ok acc') (id : String) :
    (Keyed.get? JobInstance.jobId acc'.jobs id).map JobInstance.jobSeq =
      (Keyed.get? JobInstance.jobId acc.jobs id).map JobInstance.jobSeq := by
  cases hjob : Keyed.get? JobInstance.jobId acc.jobs row.jobId with
  | none =>
    rw [takeBackJob, hjob] at h
    rw [← Except.ok.inj h]
  | some job =>
    have hid : job.jobId = row.jobId := Keyed.key_of_get? hjob
    -- whatever is put back has the job's id and number
    have hput : ∀ job' : JobInstance, job'.jobId = job.jobId → job'.jobSeq = job.jobSeq →
        (Keyed.get? JobInstance.jobId
          (Keyed.modify JobInstance.jobId acc.jobs row.jobId fun _ => job') id).map
            JobInstance.jobSeq =
          (Keyed.get? JobInstance.jobId acc.jobs id).map JobInstance.jobSeq := by
      intro job' hid' hseq
      by_cases heq : id = row.jobId
      · subst heq
        rw [Keyed.get?_modify_self fun _ _ => hid'.trans hid, hjob]
        exact congrArg some hseq
      · rw [Keyed.get?_modify_ne (fun _ _ => hid'.trans hid) heq]
    rw [takeBackJob, hjob] at h
    dsimp only at h
    split at h
    · rw [← Except.ok.inj h]
      exact hput _ rfl rfl
    split at h
    · simp only [Exec.bind_eq_ok, Exec.pure_eq_ok] at h
      obtain ⟨pools, -, rfl⟩ := h
      exact hput _ rfl rfl
    · rw [← Except.ok.inj h]
      exact hput _ rfl rfl

/-- Taking back a run gives it and its jobs new numbers. -/
theorem takeBackRun_numbered {daemon daemon' : DaemonState} {saved : SavedRun}
    (haccepts : ∀ spec, saved.spec = some spec → Dag.Accepts spec) (hnumbered : Numbered daemon)
    (h : takeBackRun cfg found now daemon saved = .ok daemon') :
    Numbered daemon' ∧ daemon'.events = daemon.events := by
  unfold takeBackRun at h
  split at h
  · obtain rfl := Except.ok.inj h
    exact ⟨⟨hnumbered.run, hnumbered.runInj, hnumbered.job, hnumbered.jobInj⟩, rfl⟩
  next spec hspec =>
  simp only [Exec.bind_eq_ok, Exec.pure_eq_ok] at h
  obtain ⟨taken, htaken, rfl⟩ := h
  have hnew := NumberedFrom.new (Dag.exists_topological (haccepts spec hspec)).1 saved.runId
    daemon.runCounter daemon.jobCounter now
  have hseq : ∀ id, (Keyed.get? JobInstance.jobId taken.jobs id).map JobInstance.jobSeq =
      ((WorkflowRun.new saved.runId daemon.runCounter spec daemon.jobCounter now).job? id).map
        JobInstance.jobSeq :=
    Exec.foldlM_invariant (P := fun acc : TakingBack => ∀ id,
      (Keyed.get? JobInstance.jobId acc.jobs id).map JobInstance.jobSeq =
        ((WorkflowRun.new saved.runId daemon.runCounter spec daemon.jobCounter now).job? id).map
          JobInstance.jobSeq)
      (fun acc row acc' _ hacc hok id => (takeBackJob_jobSeq hok id).trans (hacc id)) htaken
      fun _ => rfl
  have hback : ∀ id job, Keyed.get? JobInstance.jobId taken.jobs id = some job → ∃ job₀,
      (WorkflowRun.new saved.runId daemon.runCounter spec daemon.jobCounter now).job? id =
        some job₀ ∧ job.jobSeq = job₀.jobSeq := by
    intro id job hjob
    have hmap := hseq id
    rw [hjob, Option.map_some] at hmap
    obtain ⟨job₀, hjob₀, heq⟩ := Option.map_eq_some_iff.1 hmap.symm
    exact ⟨job₀, hjob₀, heq.symm⟩
  refine ⟨hnumbered.insert _ (n := spec.jobs.length) ?_ ⟨fun id job hjob => ?_,
    fun id id' job job' hjob hjob' heq => ?_⟩ rfl rfl rfl, rfl⟩
  · rfl
  · obtain ⟨job₀, hjob₀, heq⟩ := hback id job hjob
    rw [heq]
    exact hnew.bounds id job₀ hjob₀
  · obtain ⟨job₀, hjob₀, h₀⟩ := hback id job hjob
    obtain ⟨job₁, hjob₁, h₁⟩ := hback id' job' hjob'
    exact hnew.inj id id' job₀ job₁ hjob₀ hjob₁ (h₀ ▸ h₁ ▸ heq)

theorem takeBackRuns_numbered {list : List SavedRun} {daemon daemon' : DaemonState}
    (haccepts : ∀ saved ∈ list, ∀ spec, saved.spec = some spec → Dag.Accepts spec)
    (hnumbered : Numbered daemon)
    (h : list.foldlM (takeBackRun cfg found now) daemon = .ok daemon') :
    Numbered daemon' ∧ daemon'.events = daemon.events :=
  Exec.foldlM_invariant (P := fun mid : DaemonState => Numbered mid ∧ mid.events = daemon.events)
    (fun _ saved _ hmem hmid hok =>
      have ⟨hnext, hevents⟩ := takeBackRun_numbered (haccepts saved hmem) hmid.1 hok
      ⟨hnext, hevents.trans hmid.2⟩) h ⟨hnumbered, rfl⟩

/-- The events begin anew when the controller has taken its runs back. -/
theorem Recoverable.starts {store : RunStore} (h : Recoverable store) {pools : List ResourcePool}
    (hlen : pools.length = cfg.nodes.length) {daemon : DaemonState}
    (htake : takeBackRuns cfg found now (.new pools store) = .ok daemon) :
    (SchedulerState.starting daemon).Starts := by
  have haccepts : ∀ saved ∈ store.unfinishedRuns, ∀ spec, saved.spec = some spec →
      Dag.Accepts spec := by
    intro saved hsaved spec hspec
    obtain ⟨spec', hrebuildable⟩ := h.rebuildable saved hsaved
    obtain rfl := Option.some.inj (hrebuildable.stored.symm.trans hspec)
    exact hrebuildable.accepts
  obtain ⟨hnumbered, hevents⟩ := takeBackRuns_numbered haccepts (.of_nil rfl) htake
  exact ⟨(h.takenBack hlen htake).jobsInv, hnumbered, rfl, hevents⟩

end

/-! ### The stream -/

variable {cfg : Config} {s₀ s : SchedulerState}

/-- **The events tell every change of a job, in order.**  In every state of every run of the
scheduler, the states that the events tell of a job are, after the one it began in, a path in its
state machine (a Queued job may be told again when one more node turned it down).  The last of them
is the job's state, unless the flush under way has still to tell the last change. -/
theorem events_tell_changes (hstart : s₀.Starts) (h : (scheduler cfg).Reach s₀ s)
    (hcount : s.daemon.jobCounter ≤ UInt64.size) {key : JobKey} {job : JobInstance}
    (hjob : findJob s.daemon.runs key = some job) :
    (firstState s₀.daemon.runs key :: eventsOf s.daemon.events job.jobSeq).IsChain Announces ∧
      (key ∉ s.phase.toWrite → (eventsOf s.daemon.events job.jobSeq).getLastD
        (firstState s₀.daemon.runs key) = job.state) ∧
      (key ∈ s.phase.toWrite → Announces ((eventsOf s.daemon.events job.jobSeq).getLastD
        (firstState s₀.daemon.runs key)) job.state) := by
  obtain ⟨-, hnumbered, history, hannounced⟩ := announced_of_reach hstart h
  have hstate : stateIn s.daemon.runs key = some job.state := stateIn_eq_some.2 ⟨job, hjob, rfl⟩
  rw [told_of_events hnumbered hcount hannounced.events hjob, ← ChangeLog.replay_eq_getLast]
  exact ⟨hannounced.tracks.chain key, hannounced.tracks.upToDate key job.state hstate,
    hannounced.tracks.behind key job.state hstate⟩

/-- The first job that was started has been told Queued; that it runs is still to be told. -/
theorem startsFirst_told : ∃ s job, (scheduler oneMachine).Reach (.init [.new ⟨4, 8192, []⟩]) s ∧
    findJob s.daemon.runs ("r", "a") = some job ∧ job.state = .running ∧
    eventsOf s.daemon.events job.jobSeq = [.queued] ∧
    (("r", "a") ∈ s.phase.toWrite → Announces .queued .running) := by
  have hrun : ((SchedulerState.run oneMachine (.init [.new ⟨4, 8192, []⟩]) startsFirst).bind
      fun s => (findJob s.daemon.runs ("r", "a")).map fun job =>
        (job.state, eventsOf s.daemon.events job.jobSeq,
          decide (s.daemon.jobCounter ≤ UInt64.size))) =
      some (.running, [.queued], true) := by
    decide
  obtain ⟨s, hs, hjob⟩ := Option.bind_eq_some_iff.1 hrun
  obtain ⟨job, hjob, heq⟩ := Option.map_eq_some_iff.1 hjob
  simp only [Prod.mk.injEq, decide_eq_true_eq] at heq
  obtain ⟨hstate, htold, hcount⟩ := heq
  have hreach := SchedulerState.reach_of_run hs
  obtain ⟨-, -, hbehind⟩ := events_tell_changes (.init _) hreach hcount hjob
  refine ⟨s, job, hreach, hjob, hstate, htold, fun hmem => ?_⟩
  have hannounces := hbehind hmem
  rwa [htold, hstate] at hannounces

/-- **An event names one job.**  While the counters have not run through all 64-bit words, every
event carries the number of a job that is there and of that job's run, and of no other job. -/
theorem event_names_job (hstart : s₀.Starts) (h : (scheduler cfg).Reach s₀ s)
    (hcount : s.daemon.jobCounter ≤ UInt64.size) {event : JobEvent}
    (hevent : event ∈ s.daemon.events) :
    ∃ (key : JobKey) (run : WorkflowRun) (job : JobInstance),
      findRun s.daemon.runs key.1 = some run ∧ run.job? key.2 = some job ∧
      event.runSeq = .ofNat run.runSeq ∧ event.jobSeq = .ofNat job.jobSeq ∧
      (∃ state, event.state = some state) ∧
      ∀ key' job', findJob s.daemon.runs key' = some job' →
        event.jobSeq = .ofNat job'.jobSeq → key' = key := by
  obtain ⟨-, hnumbered, history, hannounced⟩ := announced_of_reach hstart h
  obtain ⟨before, after, hsplit⟩ := List.append_of_mem hevent
  obtain ⟨-, entry, -, -, -, run, job, emittedAt, hrun, hj, rfl⟩ := hannounced.split hsplit
  have hjob : findJob s.daemon.runs entry.1 = some job := findJob_eq_some.2 ⟨run, hrun, hj⟩
  refine ⟨entry.1, run, job, hrun, hj, rfl, rfl, ⟨entry.2, JobEvent.state_new _ _ _ _⟩, ?_⟩
  intro key' job' hjob' heq
  have hlt := hnumbered.job entry.1 job hjob
  have hlt' := hnumbered.job key' job' hjob'
  refine hnumbered.jobInj key' entry.1 job' job hjob' hjob ?_
  exact UInt64.eq_of_ofNat_eq (hlt'.trans_le hcount) (hlt.trans_le hcount) heq.symm

/-- The event of the first job names it. -/
theorem startsFirst_named : ∃ s event, (scheduler oneMachine).Reach (.init [.new ⟨4, 8192, []⟩]) s ∧
    s.daemon.events = [event] ∧ ∃ (key : JobKey) (run : WorkflowRun) (job : JobInstance),
      findRun s.daemon.runs key.1 = some run ∧ run.job? key.2 = some job ∧
      event.runSeq = .ofNat run.runSeq ∧ event.jobSeq = .ofNat job.jobSeq := by
  have hrun : ((SchedulerState.run oneMachine (.init [.new ⟨4, 8192, []⟩]) startsFirst).map
      fun s => (s.daemon.events, decide (s.daemon.jobCounter ≤ UInt64.size))) =
      some ([.new 0 0 .queued 1], true) := by
    decide
  obtain ⟨s, hs, heq⟩ := Option.map_eq_some_iff.1 hrun
  simp only [Prod.mk.injEq, decide_eq_true_eq] at heq
  obtain ⟨hevents, hcount⟩ := heq
  have hreach := SchedulerState.reach_of_run hs
  obtain ⟨key, run, job, hfound, hj, hrunSeq, hjobSeq, -⟩ :=
    event_names_job (.init _) hreach hcount (hevents ▸ List.mem_singleton_self _)
  exact ⟨s, _, hreach, hevents, key, run, job, hfound, hj, hrunSeq, hjobSeq⟩

/-- What a reader's table says of a key, it began with or was told by an event. -/
theorem told_by_event {daemon : DaemonState} (base : JobKey → JobState)
    {told : List (JobKey × JobState)} {before : List JobEvent}
    (h : List.Forall₂ (IsEventOf daemon.runs) told before) (key : JobKey) :
    ChangeLog.replay base told key = base key ∨ ∃ job, findJob daemon.runs key = some job ∧
      ∃ event ∈ before, event.jobSeq = .ofNat job.jobSeq ∧
        event.state = some (ChangeLog.replay base told key) := by
  refine (ChangeLog.replay_mem base told key).imp_right fun hmem => ?_
  obtain ⟨i, hi, heq⟩ := List.mem_iff_getElem.1 hmem
  obtain ⟨hlen, hget⟩ := List.forall₂_iff_get.1 h
  have hevent := hget i hi (hlen ▸ hi)
  simp only [List.get_eq_getElem] at hevent
  rw [heq] at hevent
  obtain ⟨run, job, emittedAt, hrun, hj, hnew⟩ := hevent
  refine ⟨job, findJob_eq_some.2 ⟨run, hrun, hj⟩, _, List.getElem_mem (hlen ▸ hi), ?_⟩
  rw [hnew]
  exact ⟨rfl, JobEvent.state_new _ _ _ _⟩

/-- **Events come after the events of what a job waited for.**  Before an event that tells that a
job was queued, or what became of it then, there is one for each of its dependencies that tells that
it succeeded; before an event that tells that a job was skipped there is one that tells that a
dependency ended badly.  A dependency that the scheduler started with in that state has none. -/
theorem events_after_dependencies (hstart : s₀.Starts) (h : (scheduler cfg).Reach s₀ s)
    (hcount : s.daemon.jobCounter ≤ UInt64.size) {before after : List JobEvent} {event : JobEvent}
    (hevents : s.daemon.events = before ++ event :: after) {key : JobKey} {job : JobInstance}
    (hjob : findJob s.daemon.runs key = some job) (hseq : event.jobSeq = .ofNat job.jobSeq)
    {state : JobState} (hstate : event.state = some state) :
    (state.hasStarted = true → ∀ dep ∈ job.spec.dependsOn,
      firstState s₀.daemon.runs (key.1, dep) = .succeeded ∨
        ∃ depJob, findJob s.daemon.runs (key.1, dep) = some depJob ∧
          ∃ earlier ∈ before, earlier.jobSeq = .ofNat depJob.jobSeq ∧
            earlier.state = some .succeeded) ∧
      (state = .skipped → ∃ dep ∈ job.spec.dependsOn, ∃ bad, bad.isBad = true ∧
        (firstState s₀.daemon.runs (key.1, dep) = bad ∨
          ∃ depJob, findJob s.daemon.runs (key.1, dep) = some depJob ∧
            ∃ earlier ∈ before, earlier.jobSeq = .ofNat depJob.jobSeq ∧
              earlier.state = some bad)) := by
  obtain ⟨-, hnumbered, history, hannounced⟩ := announced_of_reach hstart h
  obtain ⟨told, ⟨key', state'⟩, rest, rfl, hbefore, run, job', emittedAt, hrun, hj, rfl⟩ :=
    hannounced.split hevents
  have hjob' : findJob s.daemon.runs key' = some job' := findJob_eq_some.2 ⟨run, hrun, hj⟩
  -- the event's number is the job's, so what it told is the job's
  have hkey : key' = key := by
    refine hnumbered.jobInj _ _ _ _ hjob' hjob (UInt64.eq_of_ofNat_eq ?_ ?_ hseq)
    · exact (hnumbered.job _ _ hjob').trans_le hcount
    · exact (hnumbered.job _ _ hjob).trans_le hcount
  subst hkey
  rw [JobEvent.state_new] at hstate
  obtain rfl := Option.some.inj hstate
  obtain ⟨hstarted, hskipped⟩ := hannounced.justified.logged told key' state' rest rfl job hjob
  refine ⟨fun hst dep hdep => ?_, fun hst => ?_⟩
  · have hsucceeded := hstarted hst dep hdep
    have htold := told_by_event (firstState s₀.daemon.runs) hbefore (key'.1, dep)
    rw [hsucceeded] at htold
    exact htold.imp_left Eq.symm
  · obtain ⟨dep, hdep, hbad⟩ := hskipped hst
    exact ⟨dep, hdep, _, hbad, (told_by_event _ hbefore (key'.1, dep)).imp_left Eq.symm⟩

/-- What happens until the second job is told Queued, once the first succeeded. -/
def queuesSecond : List Label :=
  startsFirst ++ succeedsFirst ++
    [.pollsApplied 4, .flushed true 4, .flushDone, .tick, .flushed true 5]

/-- Before the second of two jobs is told Queued, the first is told Succeeded. -/
theorem queuesSecond_told : ∃ s depJob, (scheduler oneMachine).Reach
      (.init [.new ⟨4, 8192, []⟩]) s ∧ findJob s.daemon.runs ("r", "a") = some depJob ∧
    s.daemon.events = [.new 0 0 .queued 1, .new 0 0 .running 1, .new 0 0 .succeeded 4] ++
      .new 0 1 .queued 5 :: [] ∧
    ∃ earlier ∈ ([.new 0 0 .queued 1, .new 0 0 .running 1, .new 0 0 .succeeded 4] : List JobEvent),
      earlier.jobSeq = .ofNat depJob.jobSeq ∧ earlier.state = some .succeeded := by
  have hrun : ((SchedulerState.run oneMachine (.init [.new ⟨4, 8192, []⟩]) queuesSecond).bind
      fun s => (findJob s.daemon.runs ("r", "b")).map fun job =>
        (s.daemon.events, job.jobSeq, job.spec.dependsOn,
          decide (s.daemon.jobCounter ≤ UInt64.size))) =
      some ([.new 0 0 .queued 1, .new 0 0 .running 1, .new 0 0 .succeeded 4] ++
        .new 0 1 .queued 5 :: [], 1, ["a"], true) := by
    decide
  obtain ⟨s, hs, hjob⟩ := Option.bind_eq_some_iff.1 hrun
  obtain ⟨job, hjob, heq⟩ := Option.map_eq_some_iff.1 hjob
  simp only [Prod.mk.injEq, decide_eq_true_eq] at heq
  obtain ⟨hevents, hseq, hdeps, hcount⟩ := heq
  have hreach := SchedulerState.reach_of_run hs
  obtain ⟨hstarted, -⟩ := events_after_dependencies (.init _) hreach hcount hevents hjob
    (by rw [hseq]; rfl) (JobEvent.state_new _ _ .queued _)
  rcases hstarted rfl "a" (by rw [hdeps]; exact List.mem_cons_self) with hfirst | htold
  · cases hfirst
  · obtain ⟨depJob, hdepJob, hearlier⟩ := htold
    exact ⟨s, depJob, hreach, hdepJob, hevents, hearlier⟩

end Roster
