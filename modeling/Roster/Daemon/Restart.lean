import Roster.Daemon.Follow
import Roster.Daemon.Rebuild

/-!
# What a restarted controller starts with

`take_back_runs` goes over the runs that have not ended, one after the other.  From rows in order it
makes every one of them a run as the scheduler keeps them, which its rows follow (`Rebuilt`), and it
only ever interrupts jobs that are stored as Running; so the scheduler starts with what it relies on
(`RunsTakenBack.jobsInv`, `RunsTakenBack.stored`).
-/

namespace Roster

/-- Rows stay in order while jobs stored as Running are interrupted. -/
theorem RowsOk.interrupts {store store' : RunStore} {runId : String} {spec : WorkflowSpec}
    (h : RowsOk store runId spec) (hint : Interrupts store store') : RowsOk store' runId spec := by
  induction hint with
  | refl => exact h
  | tail now _ hrunning ih => exact ih.interrupt hrunning now

theorem RunStore.row?_of_stateOf {store : RunStore} {key : JobKey}
    (h : store.stateOf key ≠ .pending) : ∃ row, store.row? key = some row := by
  cases hrow : store.row? key with
  | none => exact absurd (RunStore.stateOf_of_none hrow) h
  | some row => exact ⟨row, rfl⟩

/-- A run that was rebuilt from its rows. -/
structure Rebuilt (nodes : List Node) (store : RunStore) (saved : SavedRun) (run : WorkflowRun) :
    Prop where
  runId : run.runId = saved.runId
  spec : saved.spec = some run.spec
  accepts : Dag.Accepts run.spec
  inv : RunInv run
  follows : Follows store [] run
  holds : ∀ id job, run.job? id = some job → JobHolds job ∧
    ∀ execution ∈ job.executions, execution.node < nodes.length
  ended : ∀ row ∈ saved.jobs, ∀ state, JobState.fromStr row.state = some state →
    state.isTerminal = true → ∃ job, run.job? row.jobId = some job ∧ job.state = state ∧
      job.exitCode = row.exitCode

section

variable {nodes : List Node} {found : JobKey → Option JobHandle} {now : DateTime}

/-- Rows of other runs do not matter to it. -/
theorem Rebuilt.of_row? {store store' : RunStore} {saved : SavedRun} {run : WorkflowRun}
    (h : Rebuilt nodes store saved run)
    (hsame : ∀ jobId, store'.row? (run.runId, jobId) = store.row? (run.runId, jobId)) :
    Rebuilt nodes store' saved run :=
  { h with follows := h.follows.of_row? hsame }

/-- The rows of a run that can be rebuilt from them. -/
structure SavedRun.Rebuildable (saved : SavedRun) (spec : WorkflowSpec) (store : RunStore) :
    Prop where
  current : saved.Current store
  stored : saved.spec = some spec
  accepts : Dag.Accepts spec
  rows : RowsOk store saved.runId spec

namespace RowsTakenBack

variable {saved : SavedRun} {spec : WorkflowSpec} {run : WorkflowRun} {runSeq jobSeq : ℕ}
  {created : DateTime} {pools : List ResourcePool} {store : RunStore} {taken : TakingBack}

/-- The fresh job behind a job of the run, and the state its row gives it. -/
theorem jobOf (hsaved : saved.Rebuildable spec store)
    (h : RowsTakenBack nodes found saved.runId now saved.jobs
      ⟨(WorkflowRun.new saved.runId runSeq spec jobSeq created).jobs, pools, store⟩ taken)
    (hjobs : run.jobs = taken.jobs) {id : String} {job : JobInstance}
    (hjob : run.job? id = some job) :
    ∃ fresh, (WorkflowRun.new saved.runId runSeq spec jobSeq created).job? id = some fresh ∧
      job = fresh.takenBackBy nodes found saved.runId now saved.jobs ∧
      job.spec = fresh.spec ∧ job.state = taken.store.stateOf (saved.runId, id) := by
  rw [WorkflowRun.job?, hjobs, h.jobs, Option.map_eq_some_iff] at hjob
  obtain ⟨fresh, hfresh, rfl⟩ := hjob
  have hfresh : (WorkflowRun.new saved.runId runSeq spec jobSeq created).job? id = some fresh :=
    hfresh
  refine ⟨fresh, hfresh, rfl, ?_⟩
  rw [JobInstance.takenBackBy, show fresh.jobId = id from Keyed.key_of_get? hfresh]
  cases hrow : Keyed.get? JobRow.jobId saved.jobs id with
  | some row => exact ⟨(fresh.takenBack_same row).2.1, (h.state id fresh row hfresh hrow).symm⟩
  | none =>
    refine ⟨rfl, (WorkflowRun.job?_new hsaved.accepts hfresh).1.trans ?_⟩
    refine (RunStore.stateOf_of_none ?_).symm
    rw [h.row, hsaved.current.row, hrow]
    intro hmem
    obtain ⟨row, hrowMem, heq⟩ := List.mem_map.1 hmem
    exact Keyed.get?_eq_none.1 hrow row hrowMem (Prod.mk.inj heq).2

theorem total (hsaved : saved.Rebuildable spec store)
    (h : RowsTakenBack nodes found saved.runId now saved.jobs
      ⟨(WorkflowRun.new saved.runId runSeq spec jobSeq created).jobs, pools, store⟩ taken)
    (hjobs : run.jobs = taken.jobs) : ∀ id ∈ spec.ids, ∃ job, run.job? id = some job := by
  intro id hmem
  obtain ⟨fresh, hfresh⟩ :=
    (RunInv.new hsaved.accepts saved.runId runSeq jobSeq created).total id hmem
  refine ⟨fresh.takenBackBy nodes found saved.runId now saved.jobs, ?_⟩
  rw [WorkflowRun.job?, hjobs, h.jobs]
  exact congrArg (Option.map _) hfresh

/-- The run has a job for every row that says more than Pending. -/
theorem stateOf_eq (hsaved : saved.Rebuildable spec store)
    (h : RowsTakenBack nodes found saved.runId now saved.jobs
      ⟨(WorkflowRun.new saved.runId runSeq spec jobSeq created).jobs, pools, store⟩ taken)
    (hjobs : run.jobs = taken.jobs) {dep : String}
    (hne : taken.store.stateOf (saved.runId, dep) ≠ .pending) :
    run.stateOf dep = some (taken.store.stateOf (saved.runId, dep)) := by
  obtain ⟨row, hrow⟩ := RunStore.row?_of_stateOf hne
  obtain ⟨job, hjob⟩ := h.total hsaved hjobs dep
    ((hsaved.rows.interrupts h.store).known dep row hrow)
  obtain ⟨-, -, -, -, hstate⟩ := h.jobOf hsaved hjobs hjob
  rw [WorkflowRun.stateOf, hjob, Option.map_some, hstate]

/-- The rows a run was rebuilt from follow it. -/
theorem follows (hsaved : saved.Rebuildable spec store)
    (h : RowsTakenBack nodes found saved.runId now saved.jobs
      ⟨(WorkflowRun.new saved.runId runSeq spec jobSeq created).jobs, pools, store⟩ taken)
    (hid : run.runId = saved.runId) (hspec : run.spec = spec) (hjobs : run.jobs = taken.jobs) :
    Follows taken.store [] run := by
  have hrows := hsaved.rows.interrupts h.store
  have hnew := RunInv.new hsaved.accepts saved.runId runSeq jobSeq created
  refine ⟨?_, ?_, ?_, ?_, ?_⟩
  · rw [hid, hspec]; exact hrows.known
  all_goals
    intro id job hjob
    rw [hid]
    obtain ⟨fresh, hfresh, -, hsame, hstate⟩ := h.jobOf hsaved hjobs hjob
    obtain ⟨hmem, hkey⟩ := hnew.job id fresh hfresh
  · exact fun _ => hstate.symm
  · exact .inl hstate
  · intro hstarted
    rw [hsame]
    exact hrows.started fresh.spec hmem (by rw [hkey, ← hstate, hstarted])
  · intro hskipped
    rw [hsame]
    exact hrows.skipped fresh.spec hmem (by rw [hkey, ← hstate, hskipped])

/-- A run rebuilt from rows in order is in order. -/
theorem runInv (hsaved : saved.Rebuildable spec store)
    (h : RowsTakenBack nodes found saved.runId now saved.jobs
      ⟨(WorkflowRun.new saved.runId runSeq spec jobSeq created).jobs, pools, store⟩ taken)
    (hid : run.runId = saved.runId) (hspec : run.spec = spec) (hjobs : run.jobs = taken.jobs) :
    RunInv run := by
  have hnew := RunInv.new hsaved.accepts saved.runId runSeq jobSeq created
  have hfollows := h.follows hsaved hid hspec hjobs
  refine ⟨?_, fun id job hjob => ?_, fun id hmem => h.total hsaved hjobs id (hspec ▸ hmem),
    fun id job hjob hst => ?_, fun id job hjob hst => ?_⟩
  · rw [hjobs, h.ids]
    exact hnew.nodup
  · obtain ⟨fresh, hfresh, -, hsame, -⟩ := h.jobOf hsaved hjobs hjob
    rw [hsame, hspec]
    exact hnew.job id fresh hfresh
  · refine WorkflowRun.depsSucceeded_iff.2 fun dep hdep => ?_
    have hok := hfollows.started id job hjob hst dep hdep
    rw [hid] at hok
    rw [h.stateOf_eq hsaved hjobs (by rw [hok]; decide), hok]
  · obtain ⟨dep, hdep, hbad⟩ := hfollows.skipped id job hjob hst
    rw [hid] at hbad
    refine WorkflowRun.depBad_iff.2
      ⟨dep, hdep, _, h.stateOf_eq hsaved hjobs fun hpending => ?_, hbad⟩
    rw [hpending] at hbad
    cases hbad

/-- What the rows make of the jobs of a fresh run. -/
theorem rebuilt (hsaved : saved.Rebuildable spec store)
    (h : RowsTakenBack nodes found saved.runId now saved.jobs
      ⟨(WorkflowRun.new saved.runId runSeq spec jobSeq created).jobs, pools, store⟩ taken)
    (hid : run.runId = saved.runId) (hspec : run.spec = spec) (hjobs : run.jobs = taken.jobs) :
    Rebuilt nodes taken.store saved run := by
  refine ⟨hid, hspec ▸ hsaved.stored, hspec ▸ hsaved.accepts, h.runInv hsaved hid hspec hjobs,
    h.follows hsaved hid hspec hjobs, fun id job hjob => ?_, fun row hrow state hstored hterm => ?_⟩
  · obtain ⟨fresh, hfresh, rfl, -⟩ := h.jobOf hsaved hjobs hjob
    obtain ⟨hpending, hnone⟩ := WorkflowRun.job?_new hsaved.accepts hfresh
    unfold JobInstance.takenBackBy
    split
    · exact JobInstance.takenBack_holds hnone
    · refine ⟨⟨fun hrunning => ?_, fun _ => hnone⟩, fun execution hmem => ?_⟩
      · rw [hpending] at hrunning; cases hrunning
      · rw [hnone] at hmem; cases hmem
  · have hget := Keyed.get?_of_mem hsaved.current.nodup hrow
    obtain ⟨job, hjob⟩ := h.total hsaved hjobs row.jobId
      (hsaved.rows.known row.jobId row ((hsaved.current.row row.jobId).trans hget))
    refine ⟨job, hjob, ?_⟩
    obtain ⟨fresh, hfresh, rfl, -⟩ := h.jobOf hsaved hjobs hjob
    rw [JobInstance.takenBackBy, show fresh.jobId = row.jobId from Keyed.key_of_get? hfresh, hget]
    dsimp only
    rw [JobInstance.takenBack_of_ne]
    · exact ⟨by rw [JobInstance.restore, hstored]; rfl, rfl⟩
    · rw [hstored]
      intro heq
      rw [Option.some.inj heq] at hterm
      cases hterm

end RowsTakenBack

/-! ### Run by run -/

/-- What taking back these runs did. -/
structure RunsTakenBack (nodes : List Node) (list : List SavedRun)
    (daemon daemon' : DaemonState) : Prop where
  pools : daemon'.pools.length = daemon.pools.length
  nodup : (daemon.runs.map WorkflowRun.runId).Nodup → (daemon'.runs.map WorkflowRun.runId).Nodup
  store : Interrupts daemon.store daemon'.store
  row : ∀ key : JobKey, key.1 ∉ list.map SavedRun.runId →
    daemon'.store.row? key = daemon.store.row? key
  run : ∀ saved ∈ list, ∃ run, findRun daemon'.runs saved.runId = some run ∧
    Rebuilt nodes daemon'.store saved run
  other : ∀ id, id ∉ list.map SavedRun.runId → findRun daemon'.runs id = findRun daemon.runs id

theorem RunsTakenBack.cons {saved : SavedRun} {list : List SavedRun}
    {daemon mid daemon' : DaemonState} (hnot : saved.runId ∉ list.map SavedRun.runId)
    (hfirst : RunsTakenBack nodes [saved] daemon mid)
    (hrest : RunsTakenBack nodes list mid daemon') :
    RunsTakenBack nodes (saved :: list) daemon daemon' := by
  refine ⟨hrest.pools.trans hfirst.pools, fun h => hrest.nodup (hfirst.nodup h),
    hfirst.store.trans hrest.store, fun key hkey => ?_, fun other hother => ?_, fun id hid => ?_⟩
  · rw [List.map_cons, List.mem_cons, not_or] at hkey
    rw [hrest.row key hkey.2, hfirst.row key fun hmem => hkey.1 (List.mem_singleton.1 hmem)]
  · rcases List.mem_cons.1 hother with rfl | hother
    · obtain ⟨run, hrun, hrebuilt⟩ := hfirst.run other List.mem_cons_self
      refine ⟨run, (hrest.other _ hnot).trans hrun, hrebuilt.of_row? fun jobId => hrest.row _ ?_⟩
      rwa [hrebuilt.runId]
    · exact hrest.run other hother
  · rw [List.map_cons, List.mem_cons, not_or] at hid
    rw [hrest.other id hid.2, hfirst.other id fun hmem => hid.1 (List.mem_singleton.1 hmem)]

variable {cfg : Config}

/-- On pools for every node, taking back a run does not panic. -/
theorem takeBackRun_ok (found : JobKey → Option JobHandle) (now : DateTime)
    {daemon : DaemonState} {saved : SavedRun} {spec : WorkflowSpec}
    (hlen : daemon.pools.length = cfg.nodes.length) (hsaved : saved.Rebuildable spec daemon.store) :
    ∃ daemon', takeBackRun cfg found now daemon saved = .ok daemon' ∧
      RunsTakenBack cfg.nodes [saved] daemon daemon' := by
  obtain ⟨taken, htaken, hrows⟩ := takeBackJobs_ok found saved.runId now saved.jobs
    ⟨(WorkflowRun.new saved.runId daemon.runCounter spec daemon.jobCounter now).jobs, daemon.pools,
      daemon.store⟩ hlen hsaved.current.nodup
    fun row hrow => (hsaved.current.row _).trans (Keyed.get?_of_mem hsaved.current.nodup hrow)
  refine ⟨_, by rw [takeBackRun, hsaved.stored]; dsimp only; rw [htaken]; rfl, hrows.pools,
    fun h => Keyed.nodup_insert h, hrows.store, fun key hkey => ?_, fun other hother => ?_,
    fun id hid => ?_⟩
  · refine hrows.row key fun hmem => hkey ?_
    obtain ⟨row, -, rfl⟩ := List.mem_map.1 hmem
    exact List.mem_singleton_self _
  · obtain rfl := List.mem_singleton.1 hother
    exact ⟨_, Keyed.get?_insert.trans (if_pos rfl), hrows.rebuilt hsaved rfl rfl rfl⟩
  · refine Keyed.get?_insert.trans (if_neg fun heq => hid ?_)
    exact List.mem_singleton.2 heq.symm

theorem takeBackRunList_ok (found : JobKey → Option JobHandle) (now : DateTime)
    {list : List SavedRun} {daemon : DaemonState}
    (hlen : daemon.pools.length = cfg.nodes.length) (hnodup : (list.map SavedRun.runId).Nodup)
    (hsaved : ∀ saved ∈ list, ∃ spec, saved.Rebuildable spec daemon.store) :
    ∃ daemon', list.foldlM (takeBackRun cfg found now) daemon = .ok daemon' ∧
      RunsTakenBack cfg.nodes list daemon daemon' := by
  induction list generalizing daemon with
  | nil =>
    exact ⟨daemon, rfl, rfl, id, .refl, fun _ _ => rfl, fun _ h => absurd h List.not_mem_nil,
      fun _ _ => rfl⟩
  | cons saved list ih =>
    rw [List.map_cons, List.nodup_cons] at hnodup
    rw [List.forall_mem_cons] at hsaved
    obtain ⟨⟨spec, hspec⟩, hrest⟩ := hsaved
    obtain ⟨mid, hmid, hfirst⟩ := takeBackRun_ok found now hlen hspec
    obtain ⟨daemon', hdaemon', htaken⟩ := ih (hfirst.pools.trans hlen) hnodup.2
      fun other hother => by
        obtain ⟨spec', hother'⟩ := hrest other hother
        have hsame : ∀ jobId, mid.store.row? (other.runId, jobId) =
            daemon.store.row? (other.runId, jobId) := fun jobId => hfirst.row _ fun hmem =>
          hnodup.1 (List.mem_map.2 ⟨other, hother, List.mem_singleton.1 hmem⟩)
        exact ⟨spec', ⟨hother'.current.nodup, fun jobId =>
          (hsame jobId).trans (hother'.current.row jobId)⟩, hother'.stored, hother'.accepts,
          hother'.rows.of_row? hsame⟩
    exact ⟨daemon', by rw [List.foldlM_cons, hmid, Exec.ok_bind, hdaemon'],
      hfirst.cons hnodup.1 htaken⟩

theorem Recoverable.rebuildable {store : RunStore} (h : Recoverable store) :
    ∀ saved ∈ store.unfinishedRuns, ∃ spec, saved.Rebuildable spec store := by
  intro saved hsaved
  obtain ⟨row, hrow, -, rfl⟩ := RunStore.mem_unfinishedRuns.1 hsaved
  obtain ⟨spec, hspec, haccepts, hrows⟩ := h.run row hrow
  exact ⟨spec, RunStore.jobsOf_current h.jobs row, hspec, haccepts, hrows⟩

/-- From a store in order, `take_back_runs` rebuilds every run that has not ended. -/
theorem Recoverable.takeBackRuns_ok {store : RunStore} (h : Recoverable store)
    (found : JobKey → Option JobHandle) (now : DateTime) {pools : List ResourcePool}
    (hlen : pools.length = cfg.nodes.length) :
    ∃ daemon, takeBackRuns cfg found now (.new pools store) = .ok daemon ∧
      RunsTakenBack cfg.nodes store.unfinishedRuns (.new pools store) daemon :=
  takeBackRunList_ok found now hlen (RunStore.unfinishedRuns_nodup h.runs) h.rebuildable

/-- What a start from a store in order took back. -/
theorem Recoverable.takenBack {store : RunStore} (h : Recoverable store)
    {found : JobKey → Option JobHandle} {now : DateTime} {pools : List ResourcePool}
    (hlen : pools.length = cfg.nodes.length) {daemon : DaemonState}
    (htake : takeBackRuns cfg found now (.new pools store) = .ok daemon) :
    RunsTakenBack cfg.nodes store.unfinishedRuns (.new pools store) daemon := by
  obtain ⟨daemon', hdaemon', htaken⟩ := h.takeBackRuns_ok found now hlen
  obtain rfl := Except.ok.inj (hdaemon'.symm.trans htake)
  exact htaken

/-- A run that is there was taken back. -/
theorem RunsTakenBack.savedOf {list : List SavedRun} {pools : List ResourcePool}
    {store : RunStore} {daemon : DaemonState}
    (h : RunsTakenBack cfg.nodes list (.new pools store) daemon) {id : String} {run : WorkflowRun}
    (hrun : findRun daemon.runs id = some run) :
    ∃ saved ∈ list, saved.runId = id ∧ Rebuilt cfg.nodes daemon.store saved run := by
  by_cases hmem : id ∈ list.map SavedRun.runId
  · obtain ⟨saved, hsaved, rfl⟩ := List.mem_map.1 hmem
    obtain ⟨run', hrun', hrebuilt⟩ := h.run saved hsaved
    obtain rfl := Option.some.inj (hrun'.symm.trans hrun)
    exact ⟨saved, hsaved, rfl, hrebuilt⟩
  · rw [h.other id hmem] at hrun
    cases hrun

/-- The scheduler starts with what it relies on. -/
theorem RunsTakenBack.jobsInv {list : List SavedRun} {pools : List ResourcePool}
    {store : RunStore} {daemon : DaemonState}
    (h : RunsTakenBack cfg.nodes list (.new pools store) daemon) :
    JobsInv (.starting daemon) where
  nodup := h.nodup List.nodup_nil
  run id run hrun := by
    obtain ⟨saved, -, -, hrebuilt⟩ := h.savedOf hrun
    exact ⟨hrebuilt.inv, hrebuilt.accepts⟩
  holds key job hjob := by
    obtain ⟨run, hrun, hj⟩ := findJob_eq_some.1 hjob
    obtain ⟨saved, -, -, hrebuilt⟩ := h.savedOf hrun
    exact (hrebuilt.holds key.2 job hj).1
  phase := trivial

/-- What the store says when the scheduler starts. -/
theorem RunsTakenBack.stored {pools : List ResourcePool} {store : RunStore} {daemon : DaemonState}
    (hstore : Recoverable store)
    (h : RunsTakenBack cfg.nodes store.unfinishedRuns (.new pools store) daemon) :
    Stored (.starting daemon) := by
  have hafter := hstore.interrupts h.store
  refine ⟨hafter.runs, hafter.jobs, fun id run hrun row hrow hid => ?_, fun id run hrun => ?_,
    fun row hrow _ => hafter.run row hrow⟩
  · obtain ⟨saved, hsaved, rfl, hrebuilt⟩ := h.savedOf hrun
    obtain ⟨row', hrow', -, rfl⟩ := RunStore.mem_unfinishedRuns.1 hsaved
    have hrow : row ∈ store.runs := h.store.runs ▸ hrow
    rw [List.inj_on_of_nodup_map hstore.runs hrow hrow' hid]
    exact hrebuilt.spec
  · obtain ⟨saved, -, -, hrebuilt⟩ := h.savedOf hrun
    exact hrebuilt.follows

end

end Roster
