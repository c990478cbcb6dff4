import Roster.Daemon.Capacity

/-!
# What a job keeps over a restart

`flush_transitions` writes a job with `upsert_job`, one column a field, and `take_back_runs` builds
it again from the spec with `restore` and `reattach`.  What has a column comes back, for every job
the scheduler can have: its state and exit code, why it failed, and what it holds where, by the name
of its node.  Two fields have none: that the job is being cancelled, and which nodes turned it down.
So a job goes on as it was exactly when it had neither (`restart_carries_on`).
-/

namespace Roster

/-- The same node, by its name, and the same resources there. -/
def Execution.SameAs (nodes nodes' : List Node) (execution execution' : Execution) : Prop :=
  execution'.allocation = execution.allocation ∧ ∃ node node', nodes[execution.node]? = some node ∧
    nodes'[execution'.node]? = some node' ∧ node'.name = node.name

/-- What a row has columns for is as it was. -/
structure GivenBack (nodes nodes' : List Node) (job job' : JobInstance) : Prop where
  state : job'.state = job.state
  executions : List.Forall₂ (Execution.SameAs nodes nodes') job.executions job'.executions
  exitCode : job'.exitCode = job.exitCode
  reason : job'.reason = job.reason

/-- All that later scheduling decisions read of a job is as it was. -/
structure CarriedOn (nodes nodes' : List Node) (job job' : JobInstance) : Prop
    extends GivenBack nodes nodes' job job' where
  cancelling : job'.cancelling = job.cancelling
  rejected : job'.rejected = job.rejected

/-- The node is still in nodes.yaml, and if it is this machine, something of the job is left. -/
structure StillThere (nodes : List Node) (found : JobKey → Option JobHandle) (key : JobKey)
    (name : String) : Prop where
  node : ∃ node ∈ nodes, node.name = name
  left : ∀ node ∈ nodes, node.name = name → node.ssh = none → ∃ handle, found key = some handle

/-! ### The row -/

/-- The row that is written of a job names its node and what it holds there. -/
theorem nodeName_running {cfg : Config} {job : JobInstance} {execution : Execution}
    {node : Option String} (hexec : job.executions = [execution])
    (h : nodeName cfg job = .ok node) :
    ∃ on, cfg.nodes[execution.node]? = some on ∧ node = some on.name := by
  rw [nodeName, hexec, List.head?_cons] at h
  obtain ⟨on, hon, rfl⟩ := Exec.map_eq_ok.1 h
  exact ⟨on, Exec.index_eq_ok.1 hon, rfl⟩

/-- What is found by such a row is what it was written for. -/
theorem reattach_of_stillThere {nodes : List Node} {found : JobKey → Option JobHandle}
    {runId : String} {job : JobInstance} {execution : Execution} {name : String}
    (hexec : job.executions = [execution])
    (hthere : StillThere nodes found (runId, job.jobId) name) :
    ∃ execution' node', reattach nodes found runId (RunStore.rowOf runId job (some name)) =
        some execution' ∧ nodes[execution'.node]? = some node' ∧ node'.name = name ∧
      execution'.allocation = execution.allocation := by
  obtain ⟨on, hon, hname⟩ := hthere.node
  cases hindex : nodes.findIdx? fun node => decide (node.name = name) with
  | none =>
    have hne := List.findIdx?_eq_none_iff.1 hindex on hon
    simp [hname] at hne
  | some i =>
    obtain ⟨hlt, hpred, -⟩ := List.findIdx?_eq_some_iff_getElem.1 hindex
    have hsame : nodes[i].name = name := of_decide_eq_true hpred
    have hget := List.getElem?_eq_getElem hlt
    have hsome : ∃ handle, reattach nodes found runId (RunStore.rowOf runId job (some name)) =
        some ⟨i, execution.allocation, some handle⟩ := by
      cases hssh : nodes[i].ssh with
      | none =>
        obtain ⟨handle, hhandle⟩ := hthere.left _ (List.getElem_mem hlt) hsame hssh
        exact ⟨handle, by simp [reattach, RunStore.rowOf, hexec, hindex, hget, hssh, hhandle]⟩
      | some target =>
        exact ⟨.remote 0 runId job.jobId, by
          simp [reattach, RunStore.rowOf, hexec, hindex, hget, hssh]⟩
    obtain ⟨handle, hfound⟩ := hsome
    exact ⟨_, nodes[i], hfound, hget, hsame, rfl⟩

/-- **What is written comes back**: of a job as the scheduler keeps them, all that its row has a
column for. -/
theorem JobInstance.takenBack_rowOf {cfg : Config} {nodes : List Node}
    {found : JobKey → Option JobHandle} {runId : String} {now : DateTime} {job fresh : JobInstance}
    {node : Option String} (hholds : JobHolds job) (hnode : nodeName cfg job = .ok node)
    (hthere : ∀ name, node = some name → StillThere nodes found (runId, job.jobId) name)
    (hfresh : fresh.executions = []) :
    let job' := fresh.takenBack nodes found runId now (RunStore.rowOf runId job node)
    GivenBack cfg.nodes nodes job job' ∧ job'.cancelling = fresh.cancelling ∧
      job'.rejected = fresh.rejected := by
  have hstate : (fresh.restore (RunStore.rowOf runId job node)).state = job.state := by
    simp [restore, RunStore.rowOf]
  unfold takenBack
  by_cases hrunning : job.state = .running
  · rw [if_neg (by rw [hstate]; exact not_not.2 hrunning)]
    obtain ⟨execution, handle, hexec, -⟩ := hholds.running hrunning
    obtain ⟨on, hon, rfl⟩ := nodeName_running hexec hnode
    obtain ⟨execution', node', hfound, hnode', hname, halloc⟩ :=
      reattach_of_stillThere hexec (hthere _ rfl)
    simp only [hfound]
    refine ⟨⟨hstate, ?_, rfl, rfl⟩, rfl, rfl⟩
    rw [hexec]
    exact .cons ⟨halloc, on, node', hon, hnode', hname⟩ .nil
  · rw [if_pos (by rw [hstate]; exact hrunning)]
    refine ⟨⟨hstate, ?_, rfl, rfl⟩, rfl, rfl⟩
    rw [hholds.idle hrunning, show (fresh.restore _).executions = [] from hfresh]
    exact .nil

/-! ### The restart -/

/-- A flush that succeeds writes the job's row. -/
theorem flushTransition_row {cfg : Config} {daemon daemon' : DaemonState} {key : JobKey}
    {emittedAt : ℕ} {job : JobInstance} (hjob : findJob daemon.runs key = some job)
    (h : flushTransition cfg daemon key true emittedAt = .ok daemon') :
    ∃ node, nodeName cfg job = .ok node ∧
      daemon'.store = daemon.store.upsertJob key.1 job node := by
  obtain ⟨run, hrun, hj⟩ := findJob_eq_some.1 hjob
  rw [flushTransition, hrun] at h
  dsimp only at h
  rw [hj] at h
  simp only [Exec.bind_eq_ok, Exec.pure_eq_ok] at h
  obtain ⟨node, hnode, rfl⟩ := h
  exact ⟨node, hnode, rfl⟩

/-- What a restart makes of a job: all that was written of it, and nothing else. -/
theorem restart_gives_back {cfg cfg' : Config} {s : SchedulerState}
    (hreach : (lives.guard Life.StoreOk).Reach (.down ⟨[], []⟩) (.up cfg s)) {key : JobKey}
    {job : JobInstance} (hjob : findJob s.daemon.runs key = some job) {emittedAt : ℕ}
    {flushed : DaemonState} (hflush : flushTransition cfg s.daemon key true emittedAt = .ok flushed)
    (hunfinished : key.1 ∈ flushed.store.unfinishedRuns.map SavedRun.runId)
    {found : JobKey → Option JobHandle}
    (hthere : ∀ name, nodeName cfg job = .ok (some name) → StillThere cfg'.nodes found key name)
    {pools : List ResourcePool} {now : DateTime} {daemon : DaemonState}
    (hstart : LifeStep (.down flushed.store) (.start cfg' pools found now)
      (.up cfg' (.starting daemon))) :
    ∃ job', findJob daemon.runs key = some job' ∧ GivenBack cfg.nodes cfg'.nodes job job' ∧
      job'.cancelling = false ∧ job'.rejected = [] := by
  obtain ⟨hinv, hstored⟩ : JobsInv s ∧ Stored s := Life.Inv.reach hreach
  obtain ⟨-, hsound⟩ : KeysInv s ∧ s.daemon.store.Sound := Life.RoomInv.reach hreach.of_guard
  obtain ⟨run, hrun, hj, hrunInv⟩ := hinv.runOf hjob
  obtain ⟨node, hnode, hstore⟩ := flushTransition_row hjob hflush
  rw [hstore] at hunfinished hstart
  have hsound' := hsound.upsertJob key.1 job node
  -- the run is rebuilt by the workflow it has
  obtain ⟨saved, hsaved, hsavedId⟩ := List.mem_map.1 hunfinished
  obtain ⟨runRow, hrunRow, -, rfl⟩ := RunStore.mem_unfinishedRuns.1 hsaved
  have hspec : runRow.spec = some run.spec := hstored.spec key.1 run hrun runRow hrunRow hsavedId
  obtain rfl : key = (runRow.runId, job.jobId) := Prod.ext hsavedId.symm (findJob_jobId hjob).symm
  cases hstart with
  | start hlen htake =>
    obtain ⟨run', runSeq, jobSeq, created, hrun', hjobs⟩ :=
      (hsound'.restored hlen htake).run _ hsaved run.spec hspec
    have haccepts : Dag.Accepts run.spec := (hinv.run _ run hrun).2
    obtain ⟨hmem, hspecId⟩ := hrunInv.job _ job hj
    obtain ⟨fresh, hfresh⟩ := (RunInv.new haccepts runRow.runId runSeq jobSeq created).total
      job.jobId (List.mem_map.2 ⟨job.spec, hmem, hspecId⟩)
    obtain ⟨jobSpec, -, seq, hseq, rfl⟩ := WorkflowRun.job?_new_eq haccepts hfresh
    -- its row is the one that was written last
    have hrow := (RunStore.jobsOf_current hsound'.jobs runRow).row job.jobId
    rw [RunStore.row?_upsertJob, if_pos rfl] at hrow
    have htaken : (JobInstance.new jobSpec seq).takenBackBy cfg'.nodes found runRow.runId now
        ((s.daemon.store.upsertJob runRow.runId job node).jobsOf runRow.runId) =
        (JobInstance.new jobSpec seq).takenBack cfg'.nodes found runRow.runId now
          (RunStore.rowOf runRow.runId job node) := by
      rw [JobInstance.takenBackBy, show (JobInstance.new jobSpec seq).jobId = job.jobId from hseq,
        ← hrow]
    refine ⟨_, findJob_eq_some.2 ⟨run', hrun', (hjobs.get job.jobId).trans
      (congrArg (Option.map _) hfresh)⟩, ?_⟩
    rw [htaken]
    have hfreshExec : (JobInstance.new jobSpec seq).executions = [] := rfl
    exact JobInstance.takenBack_rowOf (hinv.holds _ job hjob) hnode
      (fun name hname => hthere name (hname ▸ hnode)) hfreshExec

/-- **A job goes on after a restart as it was, unless it was being cancelled or a node turned it
down**: for every job of every run that is stored as unfinished, once its last change is written and
as long as what it runs on is still there. -/
theorem restart_carries_on {cfg cfg' : Config} {s : SchedulerState}
    (hreach : (lives.guard Life.StoreOk).Reach (.down ⟨[], []⟩) (.up cfg s)) {key : JobKey}
    {job : JobInstance} (hjob : findJob s.daemon.runs key = some job) {emittedAt : ℕ}
    {flushed : DaemonState} (hflush : flushTransition cfg s.daemon key true emittedAt = .ok flushed)
    (hunfinished : key.1 ∈ flushed.store.unfinishedRuns.map SavedRun.runId)
    {found : JobKey → Option JobHandle}
    (hthere : ∀ name, nodeName cfg job = .ok (some name) → StillThere cfg'.nodes found key name)
    {pools : List ResourcePool} {now : DateTime} {daemon : DaemonState}
    (hstart : LifeStep (.down flushed.store) (.start cfg' pools found now)
      (.up cfg' (.starting daemon))) :
    ∃ job', findJob daemon.runs key = some job' ∧
      (CarriedOn cfg.nodes cfg'.nodes job job' ↔ job.cancelling = false ∧ job.rejected = []) := by
  obtain ⟨job', hjob', hgiven, hcancelling, hrejected⟩ :=
    restart_gives_back hreach hjob hflush hunfinished hthere hstart
  refine ⟨job', hjob', fun h => ?_, fun ⟨hnot, hnone⟩ => ?_⟩
  · exact ⟨h.cancelling.symm.trans hcancelling, h.rejected.symm.trans hrejected⟩
  · exact ⟨hgiven, hcancelling.trans hnot.symm, hrejected.trans hnone.symm⟩

/-! ### A run -/

/-- What is found of every job of this machine. -/
def stillRuns : JobKey → Option JobHandle := fun _ => some ⟨7, .process none none⟩

theorem stillRuns_there {job : JobInstance} {name : String}
    (h : nodeName oneMachine job = .ok (some name)) (key : JobKey) :
    StillThere oneMachine.nodes stillRuns key name := by
  refine ⟨?_, fun _ _ _ _ => ⟨_, rfl⟩⟩
  unfold nodeName at h
  split at h
  · cases h
  · obtain ⟨node, hnode, hname⟩ := Exec.map_eq_ok.1 h
    exact ⟨node, List.mem_of_getElem? (Exec.index_eq_ok.1 hnode), Option.some.inj hname⟩

/-- The first of two jobs runs, is cancelled or not, is written, and the controller is started
again. -/
theorem startsFirst_restarts (cancels : Bool) : ∃ s job flushed daemon,
    (lives.guard Life.StoreOk).Reach (.down ⟨[], []⟩) (.up oneMachine s) ∧
    findJob s.daemon.runs ("r", "a") = some job ∧ job.cancelling = cancels ∧ job.rejected = [] ∧
    flushTransition oneMachine s.daemon ("r", "a") true 4 = .ok flushed ∧
    "r" ∈ flushed.store.unfinishedRuns.map SavedRun.runId ∧
    LifeStep (.down flushed.store) (.start oneMachine [.new ⟨4, 8192, []⟩] stillRuns 5)
      (.up oneMachine (.starting daemon)) := by
  let labels : List Label := if cancels then [.cancel "r"] else []
  have hrun : (firstStart.run oneMachine (firstCheck ++ (startsFirst ++ labels))).map (fun s =>
      (s.phase.toWrite, (findJob s.daemon.runs ("r", "a")).map fun job =>
        (job.cancelling, job.rejected))) = some ([("r", "a")], some (cancels, [])) := by
    cases cancels <;> decide
  have hwritten : (firstStart.run oneMachine
      (firstCheck ++ (startsFirst ++ (labels ++ [.flushed true 4])))).map (fun s =>
        ((s.daemon.store.runs.filter s.daemon.store.unfinished).map RunRow.runId)) =
      some ["r"] := by
    cases cancels <;> decide
  obtain ⟨s, hs, hjob⟩ := Option.map_eq_some_iff.1 hrun
  obtain ⟨s', hs', hunfinished⟩ := Option.map_eq_some_iff.1 hwritten
  obtain ⟨htoWrite, hjob⟩ := Prod.mk.inj hjob
  obtain ⟨job, hjob, hflags⟩ := Option.map_eq_some_iff.1 hjob
  obtain ⟨hcancelling, hrejected⟩ := Prod.mk.inj hflags
  have hreach := startsFirst_reach (by cases cancels <;> decide) hs
  have hreach' := startsFirst_reach (by cases cancels <;> decide) hs'
  -- the last step is the flush of that job
  rw [← List.append_assoc, ← List.append_assoc] at hs'
  obtain ⟨before, hbefore, hlast⟩ := SchedulerState.run_append.1 hs'
  rw [List.append_assoc] at hbefore
  obtain rfl := Option.some.inj (hbefore.symm.trans hs)
  obtain ⟨mid, hflush, hnil⟩ := SchedulerState.run_cons.1 hlast
  obtain rfl := Option.some.inj hnil
  cases step_of_perform hflush with
  | flushed hok =>
    obtain ⟨rfl, rfl⟩ := List.cons.inj htoWrite
    have hinv : Life.Inv (.up oneMachine _) := Life.Inv.reach hreach'
    have hlen : [ResourcePool.new ⟨4, 8192, []⟩].length = oneMachine.nodes.length := rfl
    obtain ⟨daemon, hdaemon, -⟩ :=
      (hinv.2.recoverable hinv.1).takeBackRuns_ok stillRuns 5 hlen
    refine ⟨_, job, _, daemon, hreach, hjob, hcancelling, hrejected, hok, ?_, .start hlen hdaemon⟩
    obtain ⟨row, hrow, hid⟩ := List.mem_map.1 (hunfinished ▸ List.mem_singleton_self "r")
    obtain ⟨hmem, hunfinishedRow⟩ := List.mem_filter.1 hrow
    exact List.mem_map.2 ⟨_, RunStore.mem_unfinishedRuns.2 ⟨row, hmem, hunfinishedRow, rfl⟩, hid⟩

/-- A job that is not being cancelled goes on as it was. -/
theorem startsFirst_carriesOn : ∃ (s : SchedulerState) (job job' : JobInstance),
    (lives.guard Life.StoreOk).Reach (.down ⟨[], []⟩) (.up oneMachine s) ∧
    findJob s.daemon.runs ("r", "a") = some job ∧
    CarriedOn oneMachine.nodes oneMachine.nodes job job' := by
  obtain ⟨s, job, flushed, daemon, hreach, hjob, hcancelling, hrejected, hflush, hunfinished,
    hstart⟩ := startsFirst_restarts false
  obtain ⟨job', -, hiff⟩ := restart_carries_on hreach hjob hflush hunfinished
    (fun _ hname => stillRuns_there hname _) hstart
  exact ⟨s, job, job', hreach, hjob, hiff.2 ⟨hcancelling, hrejected⟩⟩

/-- One whose cancel was requested is a job like any other after the restart: the exit that the
cancel causes is a failure. -/
theorem startsFirst_forgotten : ∃ s job flushed daemon job',
    (lives.guard Life.StoreOk).Reach (.down ⟨[], []⟩) (.up oneMachine s) ∧
    findJob s.daemon.runs ("r", "a") = some job ∧
    flushTransition oneMachine s.daemon ("r", "a") true 4 = .ok flushed ∧
    "r" ∈ flushed.store.unfinishedRuns.map SavedRun.runId ∧
    (∀ name, nodeName oneMachine job = .ok (some name) →
      StillThere oneMachine.nodes stillRuns ("r", "a") name) ∧
    LifeStep (.down flushed.store) (.start oneMachine [.new ⟨4, 8192, []⟩] stillRuns 5)
      (.up oneMachine (.starting daemon)) ∧
    findJob daemon.runs ("r", "a") = some job' ∧
    ¬ CarriedOn oneMachine.nodes oneMachine.nodes job job' := by
  obtain ⟨s, job, flushed, daemon, hreach, hjob, hcancelling, -, hflush, hunfinished, hstart⟩ :=
    startsFirst_restarts true
  have hthere : ∀ name, nodeName oneMachine job = .ok (some name) →
      StillThere oneMachine.nodes stillRuns ("r", "a") name := fun _ hname =>
    stillRuns_there hname _
  obtain ⟨job', hjob', -, hforgotten, -⟩ :=
    restart_gives_back hreach hjob hflush hunfinished hthere hstart
  refine ⟨s, job, flushed, daemon, job', hreach, hjob, hflush, hunfinished, hthere, hstart, hjob',
    fun h => ?_⟩
  have hkept := h.cancelling
  rw [hforgotten, hcancelling] at hkept
  cases hkept

end Roster
