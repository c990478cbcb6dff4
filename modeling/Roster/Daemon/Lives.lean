import Roster.Daemon.Restart

/-!
# The controller over its lives

The controller stops at any moment, between two writes of a flush or in the middle of
`take_back_runs`, and is started again on the store it left behind, with the nodes that are then in
nodes.yaml.  Whatever happened before, what `take_back_runs` builds has every unfinished run in
order (`takeBackRuns_inv`).
-/

namespace Roster

/-- `take_back_runs` up to a moment: `runs` runs are taken back, and `jobs` rows of the next one. -/
def takeBackUntil (cfg : Config) (found : JobKey → Option JobHandle) (now : DateTime)
    (daemon : DaemonState) (runs jobs : ℕ) : Exec DaemonState := do
  let mid ← (daemon.store.unfinishedRuns.take runs).foldlM (takeBackRun cfg found now) daemon
  match daemon.store.unfinishedRuns[runs]? with
  | none => return mid
  | some saved => takeBackRun cfg found now mid { saved with jobs := saved.jobs.take jobs }

/-- The controller runs, or left its store behind. -/
inductive Life
  | up (cfg : Config) (s : SchedulerState)
  | down (store : RunStore)

/-- What happens to a controller. -/
inductive LifeEvent
  | sched (label : Label)
  /-- It is killed, or its machine goes down. -/
  | stop
  /-- It is started: the nodes, their pools, and what is found of a job of this machine. -/
  | start (cfg : Config) (pools : List ResourcePool) (found : JobKey → Option JobHandle)
      (now : DateTime)
  /-- It is started, and stops while it takes runs back. -/
  | startStop (cfg : Config) (pools : List ResourcePool) (found : JobKey → Option JobHandle)
      (now : DateTime) (runs jobs : ℕ)

/-- The lives of a controller. -/
inductive LifeStep : Life → LifeEvent → Life → Prop
  | sched {cfg s label s'} : s.perform cfg label = some (.ok s') →
      LifeStep (.up cfg s) (.sched label) (.up cfg s')
  | stop {cfg s} : LifeStep (.up cfg s) .stop (.down s.daemon.store)
  | start {cfg pools found now store daemon} : pools.length = cfg.nodes.length →
      takeBackRuns cfg found now (.new pools store) = .ok daemon →
      LifeStep (.down store) (.start cfg pools found now) (.up cfg (.starting daemon))
  | startStop {cfg pools found now runs jobs store daemon} : pools.length = cfg.nodes.length →
      takeBackUntil cfg found now (.new pools store) runs jobs = .ok daemon →
      LifeStep (.down store) (.startStop cfg pools found now runs jobs) (.down daemon.store)

/-- The lives of a controller, as a transition system. -/
def lives : LTS Life LifeEvent where
  step := LifeStep

/-- No write of a flush fails, and a new run gets a new id. -/
def Life.StoreOk : Life → LifeEvent → Prop
  | .up _ s, .sched label => label.StoreOk s.daemon.store
  | _, _ => True

/-- What holds in every life, and between them. -/
def Life.Inv : Life → Prop
  | .up _ s => JobsInv s ∧ Stored s
  | .down store => Recoverable store

/-- What `take_back_runs` did when it stopped, it did to jobs that were stored as Running. -/
theorem Recoverable.takeBackUntil {store : RunStore} (h : Recoverable store) {cfg : Config}
    {pools : List ResourcePool} (hlen : pools.length = cfg.nodes.length)
    {found : JobKey → Option JobHandle} {now : DateTime} {runs jobs : ℕ} {daemon : DaemonState}
    (hok : takeBackUntil cfg found now (.new pools store) runs jobs = .ok daemon) :
    Interrupts store daemon.store := by
  have hids := RunStore.unfinishedRuns_nodup h.runs
  have htake : (store.unfinishedRuns.take runs).Sublist store.unfinishedRuns :=
    List.take_sublist _ _
  obtain ⟨mid, hmid, htaken⟩ := takeBackRunList_ok found now
    (show (DaemonState.new pools store).pools.length = cfg.nodes.length from hlen)
    (hids.sublist (htake.map _)) fun saved hsaved => h.rebuildable saved (htake.subset hsaved)
  rw [Roster.takeBackUntil, show (DaemonState.new pools store).store = store from rfl, hmid,
    Exec.ok_bind] at hok
  split at hok
  · obtain rfl := Exec.pure_eq_ok.1 hok
    exact htaken.store
  · next saved hsaved =>
    obtain ⟨spec, hcurrent, hspec, -, -⟩ := h.rebuildable saved (List.mem_of_getElem? hsaved)
    -- the run whose take back was cut short is none of those before it
    have hnew : saved.runId ∉ (store.unfinishedRuns.take runs).map SavedRun.runId := by
      obtain ⟨hlt, rfl⟩ := List.getElem?_eq_some_iff.1 hsaved
      rw [← List.take_append_drop runs store.unfinishedRuns, List.map_append,
        List.drop_eq_getElem_cons hlt, List.nodup_append] at hids
      exact fun hmem => hids.2.2 _ hmem _ List.mem_cons_self rfl
    obtain ⟨taken, hrows, hinterrupts⟩ := takeBackJobs_ok found saved.runId now
      (saved.jobs.take jobs) ⟨(WorkflowRun.new saved.runId mid.runCounter spec mid.jobCounter
        now).jobs, mid.pools, mid.store⟩ (htaken.pools.trans hlen)
      (hcurrent.nodup.sublist ((List.take_sublist _ _).map _)) fun row hrow => by
        have hmem := (List.take_sublist _ _).subset hrow
        rw [htaken.row _ hnew]
        exact (hcurrent.row _).trans (Keyed.get?_of_mem hcurrent.nodup hmem)
    rw [takeBackRun, hspec] at hok
    dsimp only at hok
    rw [hrows, Exec.ok_bind] at hok
    obtain rfl := Exec.pure_eq_ok.1 hok
    exact htaken.store.trans hinterrupts.store

/-- Every event keeps the invariant. -/
theorem Life.Inv.step {life life' : Life} {event : LifeEvent} (hinv : life.Inv)
    (hok : life.StoreOk event) (h : LifeStep life event life') : life'.Inv := by
  cases h with
  | sched hperform =>
    have hstep := step_of_perform hperform
    exact ⟨hinv.1.step hstep, hinv.2.step hinv.1 hok hstep⟩
  | stop => exact hinv.2.recoverable hinv.1
  | start hlen htake =>
    have htaken := Recoverable.takenBack hinv hlen htake
    exact ⟨htaken.jobsInv, htaken.stored hinv⟩
  | startStop hlen htake =>
    exact Recoverable.interrupts hinv (Recoverable.takeBackUntil hinv hlen htake)

theorem Life.Inv.reach {life : Life} (h : (lives.guard Life.StoreOk).Reach (.down ⟨[], []⟩) life) :
    life.Inv :=
  h.invariant (I := Life.Inv) Recoverable.empty fun _ _ _ _ hinv hstep => hinv.step hstep.1 hstep.2

/-- **Taking runs back restores the invariants of jobs**, whatever moment the controller stopped at
in whichever of its lives. -/
theorem takeBackRuns_inv {store : RunStore}
    (h : (lives.guard Life.StoreOk).Reach (.down ⟨[], []⟩) (.down store)) (cfg : Config)
    (pools : List ResourcePool) (hlen : pools.length = cfg.nodes.length)
    (found : JobKey → Option JobHandle) (now : DateTime) :
    ∃ daemon, takeBackRuns cfg found now (.new pools store) = .ok daemon ∧
      ∀ saved ∈ store.unfinishedRuns, ∃ run, findRun daemon.runs saved.runId = some run ∧
        (∀ row ∈ saved.jobs, ∀ state, JobState.fromStr row.state = some state →
          state.isTerminal = true → ∃ job, run.job? row.jobId = some job ∧ job.state = state ∧
            job.exitCode = row.exitCode) ∧
        ∀ id job, run.job? id = some job →
          (job.state = .queued ∨ job.state = .running ∨
              (job.state.isTerminal = true ∧ job.state ≠ .skipped) →
            ∀ dep ∈ job.spec.dependsOn, ∃ depJob, run.job? dep = some depJob ∧
              depJob.state = .succeeded) ∧
          (job.state = .running ↔ ∃ execution handle, job.executions = [execution] ∧
            execution.handle = some handle ∧ execution.node < cfg.nodes.length) ∧
          (job.state ≠ .running → job.executions = []) := by
  obtain ⟨daemon, hdaemon, htaken⟩ :=
    Recoverable.takeBackRuns_ok (Life.Inv.reach h) found now hlen
  refine ⟨daemon, hdaemon, fun saved hsaved => ?_⟩
  obtain ⟨run, hrun, hrebuilt⟩ := htaken.run saved hsaved
  refine ⟨run, hrun, hrebuilt.ended, fun id job hjob => ⟨fun hstarted dep hdep => ?_, ?_,
    (hrebuilt.holds id job hjob).1.idle⟩⟩
  -- a job that started has only succeeded jobs before it
  · have hst : job.state.hasStarted = true := by
      rcases hstarted with hs | hs | ⟨hterm, hne⟩
      · rw [hs]; rfl
      · rw [hs]; rfl
      · generalize job.state = state at hterm hne
        cases state <;> first | rfl | exact absurd rfl hne | cases hterm
    have hsucc := WorkflowRun.depsSucceeded_iff.1 (hrebuilt.inv.started id job hjob hst) dep hdep
    simpa [WorkflowRun.stateOf] using hsucc
  · obtain ⟨hholds, hnodes⟩ := hrebuilt.holds id job hjob
    constructor
    · intro hrunning
      obtain ⟨execution, handle, hexec, hhandle⟩ := hholds.running hrunning
      exact ⟨execution, handle, hexec, hhandle, hnodes _ (by
        rw [hexec]; exact List.mem_singleton_self _)⟩
    · rintro ⟨execution, handle, hexec, -⟩
      by_contra hne
      rw [hholds.idle hne] at hexec
      cases hexec

/-! ### A run -/

/-- Labels that ask nothing of the store. -/
def Label.quiet : Label → Bool
  | .submit _ _ _ _ _ _ => false
  | .flushed written _ => written
  | _ => true

theorem Life.reach_of_run {cfg : Config} {s s' : SchedulerState} {labels : List Label}
    (hquiet : labels.all Label.quiet = true) (h : s.run cfg labels = some s') :
    (lives.guard Life.StoreOk).Reach (.up cfg s) (.up cfg s') := by
  induction labels generalizing s with
  | nil => exact Option.some.inj h ▸ .refl
  | cons label labels ih =>
    rw [List.all_cons, Bool.and_eq_true] at hquiet
    obtain ⟨mid, hmid, hrest⟩ := SchedulerState.run_cons.1 h
    have hok : label.StoreOk s.daemon.store := by
      cases label <;> first | trivial | exact hquiet.1 | exact absurd hquiet.1 Bool.false_ne_true
    have hfirst : (lives.guard Life.StoreOk).step (.up cfg s) (.sched label) (.up cfg mid) :=
      ⟨hok, .sched hmid⟩
    exact (LTS.Reach.refl.tail hfirst).trans (ih hquiet.2 hrest)

/-- Without a row of a run nothing is taken back. -/
theorem takeBackRuns_nil (cfg : Config) (found : JobKey → Option JobHandle) (now : DateTime)
    (pools : List ResourcePool) (jobs : List JobRow) :
    takeBackRuns cfg found now (.new pools ⟨[], jobs⟩) = .ok (.new pools ⟨[], jobs⟩) := by
  have hnone : (⟨[], jobs⟩ : RunStore).unfinishedRuns = [] := by simp [RunStore.unfinishedRuns]
  rw [takeBackRuns, DaemonState.new, hnone]
  rfl

/-- A controller of one machine that is started for the first time. -/
def firstStart : SchedulerState := .starting (.new [.new ⟨4, 8192, []⟩] ⟨[], []⟩)

theorem firstStart_reach :
    (lives.guard Life.StoreOk).Reach (.down ⟨[], []⟩) (.up oneMachine firstStart) :=
  LTS.Reach.refl.tail (l := .start oneMachine [.new ⟨4, 8192, []⟩] (fun _ => none) 0)
    ⟨trivial, .start rfl (takeBackRuns_nil _ _ _ _ _)⟩

theorem RunStore.fresh_nil (runId : String) : (⟨[], []⟩ : RunStore).Fresh runId :=
  ⟨fun _ h => absurd h List.not_mem_nil, fun _ h => absurd h List.not_mem_nil⟩

/-- The first check on a machine without cards. -/
def firstCheck : List Label :=
  [.qualificationsFinished, .gpusBlocked [⟨true, none, fun _ => true⟩] 0 0, .gpusChecked]

/-- It takes two jobs and starts the first. -/
theorem startsFirst_reach {labels : List Label} (hquiet : labels.all Label.quiet = true)
    {s : SchedulerState}
    (h : firstStart.run oneMachine (firstCheck ++ (startsFirst ++ labels)) = some s) :
    (lives.guard Life.StoreOk).Reach (.down ⟨[], []⟩) (.up oneMachine s) := by
  have hcheck : (firstStart.run oneMachine firstCheck).map (fun s => s.daemon.store) =
      some ⟨[], []⟩ := by decide
  obtain ⟨checked, hchecked, hrest⟩ := SchedulerState.run_append.1 h
  obtain ⟨submitted, hsubmit, hlast⟩ := SchedulerState.run_cons.1 hrest
  rw [hchecked, Option.map_some, Option.some.injEq] at hcheck
  have hfresh : checked.daemon.store.Fresh "r" := hcheck ▸ RunStore.fresh_nil "r"
  have hsubmitted : (lives.guard Life.StoreOk).step (.up oneMachine checked)
      (.sched (.submit "r" twoJobs twoJobs.jobs 0 true fun _ => true))
      (.up oneMachine submitted) := ⟨hfresh, .sched hsubmit⟩
  have hrestQuiet : (startsFirst.tail ++ labels).all Label.quiet = true := hquiet
  exact ((firstStart_reach.trans (Life.reach_of_run (by decide) hchecked)).tail hsubmitted).trans
    (Life.reach_of_run hrestQuiet hlast)

/-- A controller that stopped while the first of two jobs ran takes its run back. -/
theorem startsFirst_takenBack : ∃ store daemon saved run,
    takeBackRuns oneMachine (fun _ => some ⟨7, .process none none⟩) 5
      (.new [.new ⟨4, 8192, []⟩] store) = .ok daemon ∧
    saved ∈ store.unfinishedRuns ∧ findRun daemon.runs saved.runId = some run ∧
    ∀ job, run.job? "a" = some job → job.state ≠ .running → job.executions = [] := by
  have hrun : (firstStart.run oneMachine (firstCheck ++ (startsFirst ++ [.flushed true 4]))).map
      (fun s => s.daemon.store.runs.all s.daemon.store.unfinished &&
        s.daemon.store.runs.length == 1) = some true := by decide
  obtain ⟨s, hs, hunfinished⟩ := Option.map_eq_some_iff.1 hrun
  have hreach : (lives.guard Life.StoreOk).Reach (.down ⟨[], []⟩) (.down s.daemon.store) :=
    (startsFirst_reach (by decide) hs).tail (l := .stop) ⟨trivial, .stop⟩
  obtain ⟨daemon, hdaemon, htaken⟩ := takeBackRuns_inv hreach oneMachine
    [.new ⟨4, 8192, []⟩] rfl (fun _ => some ⟨7, .process none none⟩) 5
  rw [Bool.and_eq_true, beq_iff_eq, List.length_eq_one_iff] at hunfinished
  obtain ⟨hall, row, hrow⟩ := hunfinished
  have hmem : row ∈ s.daemon.store.runs := hrow ▸ List.mem_singleton_self _
  have hsaved := RunStore.mem_unfinishedRuns.2 ⟨row, hmem, List.all_eq_true.1 hall row hmem, rfl⟩
  obtain ⟨run, hfound, -, hjobs⟩ := htaken _ hsaved
  exact ⟨_, daemon, _, run, hdaemon, hsaved, hfound, fun job hjob => (hjobs "a" job hjob).2.2⟩

end Roster
