import Roster.Daemon.Durable
import Roster.Scheduler.Rejections

/-!
# Capacity for the jobs that wait

`handle_submit` refuses a run with a job that no node could ever take, as it would wait forever, and
a rejection fails its job once no other node could take it.  What the nodes have does not change
while the controller runs, so as long as it runs every job that waits has a node that could take it
(`WaitsForRoom.step`).  `take_back_runs` makes neither check: the jobs of a stored run may wait for
what the nodes of an edited nodes.yaml do not have.  Those it takes back have room exactly when
every stored job that is to wait passes the check of `handle_submit` again (`StillFits`).
-/

namespace Roster

/-- No job waits for capacity that does not exist: every job that waits, and is not about to be
skipped, has a node that did not turn it down and could fit one of its options. -/
def WaitsForRoom (s : SchedulerState) : Prop :=
  ∀ id run, findRun s.daemon.runs id = some run → ∀ jobId job, run.job? jobId = some job →
    job.state = .pending ∨ job.state = .queued → run.depBad job = false →
    ∃ node pool, s.daemon.pools[node]? = some pool ∧ job.rejectedBy node = false ∧
      ∃ option ∈ job.spec.resources.gpuOptions, pool.couldFit option = true

/-! ### While the controller runs -/

/-- A new job was not turned down, so it has room where it fits. -/
theorem couldGoElsewhere_new {pools : List ResourcePool} {job : JobInstance}
    (hrejected : job.rejected = []) :
    couldGoElsewhere pools job = fitsSomeNode pools job.spec := by
  have hfree : ∀ node, job.rejectedBy node = false := fun node => by
    rw [JobInstance.rejectedBy, hrejected, List.any_nil]
  rw [Bool.eq_iff_iff, couldGoElsewhere_iff, fitsSomeNode, List.any_eq_true]
  simp only [List.any_eq_true]
  constructor
  · rintro ⟨node, pool, hpool, -, hfits⟩
    exact ⟨pool, List.mem_of_getElem? hpool, hfits⟩
  · rintro ⟨pool, hpool, hfits⟩
    obtain ⟨node, hnode⟩ := List.mem_iff_getElem?.1 hpool
    exact ⟨node, pool, hnode, hfree node, hfits⟩

/-- A job that is there after a step and waits was there and waited, with as much room, or is
new. -/
theorem WaitsForRoom.step {cfg : Config} {s s' : SchedulerState} {label : Label} (hinv : KeysInv s)
    (hroom : WaitsForRoom s) (h : Step cfg s label s') : WaitsForRoom s' := by
  have hpools := h.inventories_eq
  intro id run' hrun' jobId job' hj' hwaits hok
  rw [← couldGoElsewhere_iff]
  have hjob' : findJob s'.daemon.runs (id, jobId) = some job' :=
    findJob_eq_some.2 ⟨run', hrun', hj'⟩
  rcases h.runs hinv with hmoved |
    ⟨newId, spec, runSeq, jobSeq, now, hfresh, haccepts, hruns, -, iter, _, _, rfl⟩
  · obtain ⟨run, hrun, hmove⟩ := hmoved.before hrun'
    obtain ⟨job, hjob, -⟩ := hmoved.holds (id, jobId) job' hjob'
    obtain ⟨job₁, hjob₁, hbecame⟩ := h.job hinv hjob
    obtain rfl := Option.some.inj (hjob₁.symm.trans hjob')
    -- it was not about to be skipped before either
    have hbefore : run.depBad job = false := by
      by_contra hbad
      have hstill := hmove.depBad (fun _ _ => ScheduleOutcome.outcome) hbecame.spec
        (Bool.not_eq_false _ ▸ hbad)
      rw [hok] at hstill
      cases hstill
    have hj := (findJob_eq_of_findRun (k := (id, jobId)) hrun).symm.trans hjob
    have hstays : (job.state = .pending ∨ job.state = .queued) → job₁.rejected = job.rejected →
        couldGoElsewhere s'.daemon.pools job₁ = true := fun hw hrejected => by
      rw [couldGoElsewhere_congr hpools hbecame.spec hrejected]
      exact couldGoElsewhere_iff.2 (hroom id run hrun jobId job hj hw hbefore)
    have hspec := hbecame.spec
    have hterminal := hbecame.running
    cases hbecame with
    | same _ => exact hstays hwaits rfl
    | queued _ hpending _ => exact hstays (.inl hpending) rfl
    | skipped _ _ _ => rcases hwaits with hw | hw <;> cases hw
    | marked hrunning =>
      rw [job.markCancelling_same.2.2.1, hrunning] at hwaits
      rcases hwaits with hw | hw <;> cases hw
    | polled _ _ _ hrunning _ =>
      rcases hterminal hrunning with hst | hst
      · rw [hst] at hwaits
        rcases hwaits with hw | hw <;> cases hw
      · rcases hwaits with hw | hw <;> rw [hw] at hst <;> cases hst
    | launched hphase hmem hkey hqueued _ =>
      obtain ⟨job₂, job₃, pools, hjob₂, -, hjob₃, hsame, hrejected⟩ :=
        h.launchesApplied_rejected hinv hphase hmem
      rw [hkey] at hjob₂ hjob₃
      obtain rfl := Option.some.inj (hjob₂.symm.trans hjob)
      obtain rfl := Option.some.inj (hjob₃.symm.trans hjob')
      cases hrejected with
      | kept _ hlist => exact hstays (.inr hqueued) hlist
      | turnedDown _ _ _ hgoes =>
        rw [← hgoes]
        exact couldGoElsewhere_congr (hpools.trans hsame.symm) rfl rfl
      | refused _ _ _ _ => rcases hwaits with hw | hw <;> cases hw
  · cases h with
    | submit _ _ hfits =>
      rw [hruns, findRun_append id hfresh] at hrun'
      split at hrun'
      · obtain rfl := Option.some.inj hrun'
        obtain ⟨jobSpec, hmem, seq, -, rfl⟩ := WorkflowRun.job?_new_eq haccepts hj'
        rw [couldGoElsewhere_new rfl]
        exact List.all_eq_true.1 hfits jobSpec hmem
      · exact couldGoElsewhere_iff.2 (hroom id run' hrun' jobId job' hj' hwaits hok)

/-! ### What is stored -/

/-- What holds of the store whichever writes failed: rows are told apart by their keys, and runs
were stored with the workflows that were accepted. -/
structure RunStore.Sound (store : RunStore) : Prop where
  runs : (store.runs.map RunRow.runId).Nodup
  jobs : (store.jobs.map JobRow.key).Nodup
  specs : ∀ row ∈ store.runs, ∀ spec, row.spec = some spec → Dag.Accepts spec

namespace RunStore.Sound

variable {store : RunStore}

theorem empty : RunStore.Sound ⟨[], []⟩ where
  runs := List.nodup_nil
  jobs := List.nodup_nil
  specs _ hrow := absurd hrow List.not_mem_nil

theorem accepts (h : store.Sound) {saved : SavedRun} (hsaved : saved ∈ store.unfinishedRuns)
    {spec : WorkflowSpec} (hspec : saved.spec = some spec) : Dag.Accepts spec := by
  obtain ⟨row, hrow, -, rfl⟩ := RunStore.mem_unfinishedRuns.1 hsaved
  exact h.specs row hrow spec hspec

theorem upsertRun (h : store.Sound) {run : WorkflowRun} (haccepts : Dag.Accepts run.spec) :
    (store.upsertRun run).Sound where
  runs := Keyed.nodup_insert h.runs
  jobs := h.jobs
  specs row hrow spec hspec := by
    rcases Keyed.mem_insert hrow with rfl | hrow
    · exact Option.some.inj hspec ▸ haccepts
    · exact h.specs row hrow spec hspec

theorem upsertJob (h : store.Sound) (runId : String) (job : JobInstance) (node : Option String) :
    (store.upsertJob runId job node).Sound where
  runs := h.runs
  jobs := Keyed.nodup_insert h.jobs
  specs := h.specs

theorem interrupt (h : store.Sound) (runId jobId : String) (now : DateTime) :
    (store.interrupt runId jobId now).Sound where
  runs := h.runs
  jobs := by
    have hkeys : (store.interrupt runId jobId now).jobs.map JobRow.key =
        store.jobs.map JobRow.key := Keyed.map_key_modify fun _ h => h
    exact hkeys ▸ h.jobs
  specs := h.specs

/-- Every step keeps it. -/
theorem step {cfg : Config} {s s' : SchedulerState} {label : Label} (hinv : KeysInv s)
    (hstore : s.daemon.store.Sound) (h : Step cfg s label s') : s'.daemon.store.Sound := by
  cases h.kind with
  | submit _ haccepts =>
    exact submit_store (P := RunStore.Sound) (hstore.upsertRun haccepts)
      (fun _ _ _ _ h => h.upsertJob _ _ _) hstore
  | flushed hok =>
    rcases flushTransition_store hok with hsame | ⟨job, node, hwritten⟩
    · exact hsame ▸ hstore
    · exact hwritten ▸ hstore.upsertJob _ _ _
  | silent hsilent => exact (h.leftToFlush hinv hsilent).store ▸ hstore

/-- So does taking jobs back. -/
theorem takeBackJobs {nodes : List Node} {found : JobKey → Option JobHandle} {runId : String}
    {now : DateTime} {rows : List JobRow} {acc acc' : TakingBack} (hstore : acc.store.Sound)
    (h : rows.foldlM (takeBackJob nodes found runId now) acc = .ok acc') : acc'.store.Sound := by
  refine Exec.foldlM_invariant (P := fun mid => mid.store.Sound) ?_ h hstore
  intro mid row mid' _ hmid hok
  unfold takeBackJob at hok
  split at hok
  · exact Except.ok.inj hok ▸ hmid
  dsimp only at hok
  split at hok
  · exact Except.ok.inj hok ▸ hmid
  split at hok
  · simp only [Exec.bind_eq_ok, Exec.pure_eq_ok] at hok
    obtain ⟨pools, -, rfl⟩ := hok
    exact hmid
  · exact Except.ok.inj hok ▸ hmid.interrupt _ _ _

theorem interruptJobs (hstore : store.Sound) (saved : SavedRun) (now : DateTime) :
    (interruptJobs store saved now).Sound := by
  unfold Roster.interruptJobs
  refine List.foldlRecOn _ _ hstore fun mid hmid row _ => ?_
  split
  · exact hmid.interrupt _ _ _
  · exact hmid

theorem takeBackRun {cfg : Config} {found : JobKey → Option JobHandle} {now : DateTime}
    {daemon daemon' : DaemonState} {saved : SavedRun} (hstore : daemon.store.Sound)
    (h : takeBackRun cfg found now daemon saved = .ok daemon') : daemon'.store.Sound := by
  unfold Roster.takeBackRun at h
  split at h
  · exact Except.ok.inj h ▸ hstore.interruptJobs saved now
  · simp only [Exec.bind_eq_ok, Exec.pure_eq_ok] at h
    obtain ⟨taken, htaken, rfl⟩ := h
    exact takeBackJobs hstore htaken

theorem takeBackRunList {cfg : Config} {found : JobKey → Option JobHandle} {now : DateTime}
    {daemon daemon' : DaemonState} {list : List SavedRun} (hstore : daemon.store.Sound)
    (h : list.foldlM (Roster.takeBackRun cfg found now) daemon = .ok daemon') :
    daemon'.store.Sound :=
  Exec.foldlM_invariant (P := fun mid => mid.store.Sound)
    (fun _ _ _ _ hmid hok => hmid.takeBackRun hok) h hstore

theorem takeBackUntil {cfg : Config} {found : JobKey → Option JobHandle} {now : DateTime}
    {daemon daemon' : DaemonState} {runs jobs : ℕ} (hstore : daemon.store.Sound)
    (h : takeBackUntil cfg found now daemon runs jobs = .ok daemon') : daemon'.store.Sound := by
  simp only [Roster.takeBackUntil, Exec.bind_eq_ok] at h
  obtain ⟨mid, hmid, h⟩ := h
  have hsound := takeBackRunList hstore hmid
  split at h
  · exact Exec.pure_eq_ok.1 h ▸ hsound
  · exact hsound.takeBackRun h

end RunStore.Sound

/-! ### What is taken back -/

/-- The state a job is taken back in: the one stored, unless it was Running and is not found
again. -/
def SavedRun.stateAfter (nodes : List Node) (found : JobKey → Option JobHandle) (saved : SavedRun)
    (id : String) : JobState :=
  match Keyed.get? JobRow.jobId saved.jobs id with
  | none => .pending
  | some row =>
    let state := (JobState.fromStr row.state).getD .pending
    if state = .running ∧ (reattach nodes found saved.runId row).isNone = true then .interrupted
    else state

/-- Every stored job that is to wait, and does not depend on one that ended badly, could fit on
some node, as `handle_submit` asks of new jobs. -/
def StillFits (cfg : Config) (pools : List ResourcePool) (found : JobKey → Option JobHandle)
    (store : RunStore) : Prop :=
  ∀ saved ∈ store.unfinishedRuns, ∀ spec, saved.spec = some spec → ∀ job ∈ spec.jobs,
    saved.stateAfter cfg.nodes found job.id = .pending ∨
      saved.stateAfter cfg.nodes found job.id = .queued →
    (∀ dep ∈ job.dependsOn, (saved.stateAfter cfg.nodes found dep).isBad = false) →
    fitsSomeNode pools job = true

section

variable {cfg : Config} {found : JobKey → Option JobHandle} {now : DateTime}

/-- The state and the rejections of a job that is taken back. -/
theorem JobInstance.takenBack_state {nodes : List Node} {runId : String} (row : JobRow)
    (job : JobInstance) : (job.takenBack nodes found runId now row).rejected = job.rejected ∧
      (job.takenBack nodes found runId now row).state =
        if (JobState.fromStr row.state).getD .pending = .running ∧
          (reattach nodes found runId row).isNone = true then .interrupted
        else (JobState.fromStr row.state).getD .pending := by
  have hrestored : (job.restore row).state = (JobState.fromStr row.state).getD .pending := rfl
  unfold takenBack
  split
  · next hne => exact ⟨rfl, by rw [if_neg fun h => hne (hrestored.trans h.1), hrestored]⟩
  · next hrunning =>
    rw [not_ne_iff, hrestored] at hrunning
    split
    · next execution hfound => exact ⟨rfl, by simp [hfound, hrestored]⟩
    · next hfound => exact ⟨rfl, by simp [hfound, hrunning]⟩

theorem JobInstance.takenBackBy_new {nodes : List Node} (saved : SavedRun) (jobSpec : JobSpec)
    (jobSeq : ℕ) :
    let job := (JobInstance.new jobSpec jobSeq).takenBackBy nodes found saved.runId now saved.jobs
    job.spec = jobSpec ∧ job.rejected = [] ∧
      job.state = saved.stateAfter nodes found jobSpec.id := by
  unfold takenBackBy SavedRun.stateAfter
  rw [show (JobInstance.new jobSpec jobSeq).jobId = jobSpec.id from rfl]
  cases Keyed.get? JobRow.jobId saved.jobs jobSpec.id with
  | none => exact ⟨rfl, rfl, rfl⟩
  | some row => exact ⟨(takenBack_same row _).2.1, takenBack_state row _⟩

theorem takeBackJobs_jobs {nodes : List Node} {runId : String} {rows : List JobRow}
    {acc acc' : TakingBack} (hlen : acc.pools.length = nodes.length)
    (hnodup : (rows.map JobRow.jobId).Nodup)
    (h : rows.foldlM (takeBackJob nodes found runId now) acc = .ok acc') :
    JobsTakenBack nodes found runId now rows acc.jobs acc'.jobs := by
  induction rows generalizing acc with
  | nil => exact Except.ok.inj h ▸ .nil _
  | cons row rows ih =>
    rw [List.map_cons, List.nodup_cons] at hnodup
    rw [List.foldlM_cons, Exec.bind_eq_ok] at h
    obtain ⟨mid, hmid, hrest⟩ := h
    obtain ⟨mid', hmid', htaken⟩ := takeBackJob_ok found runId now hlen row
    obtain rfl := Except.ok.inj (hmid'.symm.trans hmid)
    have hkeeps : mid'.pools.length = acc.pools.length := by
      cases htaken with
      | unknown _ hsame => rw [hsame]
      | kept _ _ _ hpools _ => exact hpools
      | interrupted _ _ _ hpools _ _ => exact hpools
    exact htaken.jobs.cons hnodup.1 (ih (hkeeps.trans hlen) hnodup.2 hrest)

/-- Counting what running jobs hold does not change what the nodes have. -/
theorem takeBackJobs_inventories {nodes : List Node} {runId : String} {rows : List JobRow}
    {acc acc' : TakingBack} (h : rows.foldlM (takeBackJob nodes found runId now) acc = .ok acc') :
    inventories acc'.pools = inventories acc.pools := by
  refine Exec.foldlM_invariant (P := fun mid => inventories mid.pools = inventories acc.pools)
    ?_ h rfl
  intro mid row mid' _ hmid hok
  unfold takeBackJob at hok
  split at hok
  · exact Except.ok.inj hok ▸ hmid
  dsimp only at hok
  split at hok
  · exact Except.ok.inj hok ▸ hmid
  split at hok
  · simp only [Exec.bind_eq_ok, Exec.pure_eq_ok] at hok
    obtain ⟨pools, hupdate, rfl⟩ := hok
    obtain ⟨pool, pool', hpool, hbook, rfl⟩ := Exec.update_eq_ok.1 hupdate
    exact (inventories_set hpool (Except.ok.inj hbook ▸ rfl)).trans hmid
  · exact Except.ok.inj hok ▸ hmid

/-- What taking back these runs made of the runs that are kept, whatever the rows say. -/
structure RunsRestored (cfg : Config) (found : JobKey → Option JobHandle) (now : DateTime)
    (list : List SavedRun) (daemon daemon' : DaemonState) : Prop where
  pools : inventories daemon'.pools = inventories daemon.pools
  nodup : (daemon.runs.map WorkflowRun.runId).Nodup → (daemon'.runs.map WorkflowRun.runId).Nodup
  run : ∀ saved ∈ list, ∀ spec, saved.spec = some spec → ∃ run runSeq jobSeq created,
    findRun daemon'.runs saved.runId = some run ∧
      JobsTakenBack cfg.nodes found saved.runId now saved.jobs
        (WorkflowRun.new saved.runId runSeq spec jobSeq created).jobs run.jobs
  unspecified : ∀ saved ∈ list, saved.spec = none →
    findRun daemon'.runs saved.runId = findRun daemon.runs saved.runId
  other : ∀ id, id ∉ list.map SavedRun.runId → findRun daemon'.runs id = findRun daemon.runs id

theorem takeBackRun_restored {daemon daemon' : DaemonState} {saved : SavedRun}
    (hlen : daemon.pools.length = cfg.nodes.length) (hnodup : (saved.jobs.map JobRow.jobId).Nodup)
    (h : takeBackRun cfg found now daemon saved = .ok daemon') :
    RunsRestored cfg found now [saved] daemon daemon' := by
  unfold takeBackRun at h
  split at h
  · next hnone =>
    obtain rfl := Except.ok.inj h
    refine ⟨rfl, id, fun other hother spec hspec => ?_, fun _ _ _ => rfl, fun _ _ => rfl⟩
    rw [List.mem_singleton.1 hother, hnone] at hspec
    cases hspec
  · next spec hsome =>
    simp only [Exec.bind_eq_ok, Exec.pure_eq_ok] at h
    obtain ⟨taken, htaken, rfl⟩ := h
    refine ⟨takeBackJobs_inventories htaken, Keyed.nodup_insert, fun other hother spec' hspec => ?_,
      fun other hother hnone => ?_, fun id hid => ?_⟩
    · obtain rfl := List.mem_singleton.1 hother
      obtain rfl := Option.some.inj (hsome.symm.trans hspec)
      exact ⟨_, daemon.runCounter, daemon.jobCounter, now, Keyed.get?_insert.trans (if_pos rfl),
        takeBackJobs_jobs hlen hnodup htaken⟩
    · rw [List.mem_singleton.1 hother, hsome] at hnone
      cases hnone
    · refine Keyed.get?_insert.trans (if_neg fun heq => hid ?_)
      exact List.mem_singleton.2 heq.symm

theorem RunsRestored.cons {saved : SavedRun} {list : List SavedRun}
    {daemon mid daemon' : DaemonState} (hnot : saved.runId ∉ list.map SavedRun.runId)
    (hfirst : RunsRestored cfg found now [saved] daemon mid)
    (hrest : RunsRestored cfg found now list mid daemon') :
    RunsRestored cfg found now (saved :: list) daemon daemon' := by
  have hbefore : ∀ other ∈ list, findRun mid.runs other.runId = findRun daemon.runs other.runId :=
    fun other hother => hfirst.other _ fun hmem =>
      hnot (List.mem_map.2 ⟨other, hother, List.mem_singleton.1 hmem⟩)
  refine ⟨hrest.pools.trans hfirst.pools, fun h => hrest.nodup (hfirst.nodup h),
    fun other hother spec hspec => ?_, fun other hother hnone => ?_, fun id hid => ?_⟩
  · rcases List.mem_cons.1 hother with rfl | hother
    · obtain ⟨run, runSeq, jobSeq, created, hrun, hjobs⟩ :=
        hfirst.run other List.mem_cons_self _ hspec
      exact ⟨run, runSeq, jobSeq, created, (hrest.other _ hnot).trans hrun, hjobs⟩
    · exact hrest.run other hother spec hspec
  · rcases List.mem_cons.1 hother with rfl | hother
    · exact (hrest.other _ hnot).trans (hfirst.unspecified other List.mem_cons_self hnone)
    · exact (hrest.unspecified other hother hnone).trans (hbefore other hother)
  · rw [List.map_cons, List.mem_cons, not_or] at hid
    rw [hrest.other id hid.2, hfirst.other id fun hmem => hid.1 (List.mem_singleton.1 hmem)]

theorem takeBackRunList_restored {list : List SavedRun} {daemon daemon' : DaemonState}
    (hlen : daemon.pools.length = cfg.nodes.length) (hids : (list.map SavedRun.runId).Nodup)
    (hnodup : ∀ saved ∈ list, (saved.jobs.map JobRow.jobId).Nodup)
    (h : list.foldlM (takeBackRun cfg found now) daemon = .ok daemon') :
    RunsRestored cfg found now list daemon daemon' := by
  induction list generalizing daemon with
  | nil =>
    obtain rfl := Except.ok.inj h
    exact ⟨rfl, id, by simp, by simp, fun _ _ => rfl⟩
  | cons saved list ih =>
    rw [List.map_cons, List.nodup_cons] at hids
    rw [List.foldlM_cons, Exec.bind_eq_ok] at h
    obtain ⟨mid, hmid, hrest⟩ := h
    have hfirst := takeBackRun_restored hlen (hnodup saved List.mem_cons_self) hmid
    have hlenMid : mid.pools.length = cfg.nodes.length := by
      have hsame := congrArg List.length hfirst.pools
      rw [inventories, inventories, List.length_map, List.length_map] at hsame
      exact hsame.trans hlen
    exact hfirst.cons hids.1 (ih hlenMid hids.2
      (fun other hother => hnodup other (List.mem_cons_of_mem _ hother)) hrest)

/-! ### The jobs of a run that is taken back -/

namespace JobsTakenBack

variable {nodes : List Node} {saved : SavedRun} {spec : WorkflowSpec} {run : WorkflowRun}
  {runSeq jobSeq : ℕ} {created : DateTime}

/-- A job of the run is one of its workflow, was not turned down, and is in the state its row
gives it. -/
theorem job (haccepts : Dag.Accepts spec)
    (h : JobsTakenBack nodes found saved.runId now saved.jobs
      (WorkflowRun.new saved.runId runSeq spec jobSeq created).jobs run.jobs)
    {id : String} {job : JobInstance} (hj : run.job? id = some job) :
    job.spec ∈ spec.jobs ∧ job.spec.id = id ∧ job.rejected = [] ∧
      job.state = saved.stateAfter nodes found id := by
  rw [WorkflowRun.job?, h.get, Option.map_eq_some_iff] at hj
  obtain ⟨fresh, hfresh, rfl⟩ := hj
  obtain ⟨jobSpec, hmem, seq, rfl, rfl⟩ := WorkflowRun.job?_new_eq haccepts hfresh
  obtain ⟨hspec, hrejected, hstate⟩ := JobInstance.takenBackBy_new saved jobSpec seq
  exact ⟨hspec.symm ▸ hmem, by rw [hspec], hrejected, hstate⟩

/-- Every job of the workflow is there. -/
theorem total (haccepts : Dag.Accepts spec)
    (h : JobsTakenBack nodes found saved.runId now saved.jobs
      (WorkflowRun.new saved.runId runSeq spec jobSeq created).jobs run.jobs)
    {id : String} (hid : id ∈ spec.ids) : ∃ job, run.job? id = some job := by
  obtain ⟨fresh, hfresh⟩ := (RunInv.new haccepts saved.runId runSeq jobSeq created).total id hid
  refine ⟨fresh.takenBackBy nodes found saved.runId now saved.jobs, (h.get id).trans ?_⟩
  exact congrArg (Option.map _) hfresh

/-- It is about to be skipped if a job it depends on is taken back in a state that ended badly. -/
theorem depBad (haccepts : Dag.Accepts spec)
    (h : JobsTakenBack nodes found saved.runId now saved.jobs
      (WorkflowRun.new saved.runId runSeq spec jobSeq created).jobs run.jobs)
    {job : JobInstance} (hmem : job.spec ∈ spec.jobs) :
    run.depBad job = false ↔
      ∀ dep ∈ job.spec.dependsOn, (saved.stateAfter nodes found dep).isBad = false := by
  have hstate : ∀ dep ∈ job.spec.dependsOn,
      run.stateOf dep = some (saved.stateAfter nodes found dep) := by
    intro dep hdep
    obtain ⟨depJob, hdepJob⟩ :=
      h.total haccepts ((Dag.exists_topological haccepts).2.1 job.spec hmem dep hdep)
    rw [WorkflowRun.stateOf, hdepJob, Option.map_some, (h.job haccepts hdepJob).2.2.2]
  rw [← Bool.not_eq_true, WorkflowRun.depBad_iff]
  constructor
  · intro hnot dep hdep
    exact Bool.not_eq_true _ ▸ fun hbad => hnot ⟨dep, hdep, _, hstate dep hdep, hbad⟩
  · rintro hgood ⟨dep, hdep, state, hfound, hbad⟩
    rw [hstate dep hdep, Option.some.injEq] at hfound
    rw [← hfound, hgood dep hdep] at hbad
    cases hbad

end JobsTakenBack

/-- What the scheduler starts with: a run for every stored one, with the states its rows give, on
pools of the nodes' inventories. -/
theorem RunStore.Sound.restored {store : RunStore} (hstore : store.Sound)
    {pools : List ResourcePool} (hlen : pools.length = cfg.nodes.length) {daemon : DaemonState}
    (h : takeBackRuns cfg found now (.new pools store) = .ok daemon) :
    RunsRestored cfg found now store.unfinishedRuns (.new pools store) daemon := by
  refine takeBackRunList_restored hlen (RunStore.unfinishedRuns_nodup hstore.runs)
    (fun saved hsaved => ?_) h
  obtain ⟨row, -, -, rfl⟩ := RunStore.mem_unfinishedRuns.1 hsaved
  exact (RunStore.jobsOf_current hstore.jobs row).nodup

variable {store : RunStore} {pools : List ResourcePool} {daemon : DaemonState}

/-- Every run that is there was taken back, by the workflow it was stored with. -/
theorem RunsRestored.savedOf (hstore : store.Sound)
    (h : RunsRestored cfg found now store.unfinishedRuns (.new pools store) daemon) {id : String}
    {run : WorkflowRun} (hrun : findRun daemon.runs id = some run) :
    ∃ saved ∈ store.unfinishedRuns, saved.runId = id ∧
      ∃ spec runSeq jobSeq created, saved.spec = some spec ∧ Dag.Accepts spec ∧
        JobsTakenBack cfg.nodes found saved.runId now saved.jobs
          (WorkflowRun.new saved.runId runSeq spec jobSeq created).jobs run.jobs := by
  by_cases hmem : id ∈ store.unfinishedRuns.map SavedRun.runId
  · obtain ⟨saved, hsaved, rfl⟩ := List.mem_map.1 hmem
    cases hspec : saved.spec with
    | none =>
      rw [h.unspecified saved hsaved hspec] at hrun
      cases hrun
    | some spec =>
      obtain ⟨run', runSeq, jobSeq, created, hrun', hjobs⟩ := h.run saved hsaved spec hspec
      obtain rfl := Option.some.inj (hrun'.symm.trans hrun)
      exact ⟨saved, hsaved, rfl, spec, runSeq, jobSeq, created, hspec,
        hstore.accepts hsaved hspec, hjobs⟩
  · rw [h.other id hmem] at hrun
    cases hrun

theorem RunsRestored.keysInv (hstore : store.Sound)
    (h : RunsRestored cfg found now store.unfinishedRuns (.new pools store) daemon) :
    KeysInv (.starting daemon) := by
  have hnodup := h.nodup List.nodup_nil
  refine ⟨⟨hnodup, fun run hrun => ?_⟩, trivial⟩
  obtain ⟨saved, -, -, spec, runSeq, jobSeq, created, -, haccepts, hjobs⟩ :=
    h.savedOf hstore ((Keyed.get?_eq_some hnodup).2 ⟨hrun, rfl⟩)
  rw [hjobs.ids]
  exact (RunInv.new haccepts saved.runId runSeq jobSeq created).nodup

/-- What is taken back has room exactly when all of it passes the check of `handle_submit`. -/
theorem RunsRestored.waitsForRoom_iff (hstore : store.Sound)
    (h : RunsRestored cfg found now store.unfinishedRuns (.new pools store) daemon) :
    WaitsForRoom (.starting daemon) ↔ StillFits cfg pools found store := by
  have hpools : inventories daemon.pools = inventories pools := h.pools
  have hroom : ∀ job : JobInstance, job.rejected = [] →
      couldGoElsewhere daemon.pools job = fitsSomeNode pools job.spec := fun job hrejected =>
    (couldGoElsewhere_congr hpools rfl rfl).trans (couldGoElsewhere_new hrejected)
  constructor
  · intro hwaits saved hsaved spec hspec jobSpec hmem hstate hdeps
    have haccepts := hstore.accepts hsaved hspec
    obtain ⟨run, runSeq, jobSeq, created, hrun, hjobs⟩ := h.run saved hsaved spec hspec
    obtain ⟨job, hj⟩ := hjobs.total haccepts (List.mem_map_of_mem hmem)
    obtain ⟨hin, hid, hrejected, hjobState⟩ := hjobs.job haccepts hj
    have hsame : job.spec = jobSpec :=
      List.inj_on_of_nodup_map (Dag.exists_topological haccepts).1 hin hmem hid
    subst hsame
    rw [← hroom job hrejected]
    exact couldGoElsewhere_iff.2 (hwaits saved.runId run hrun _ job hj (hjobState ▸ hstate)
      ((hjobs.depBad haccepts hin).2 hdeps))
  · intro hfits id run hrun jobId job hj hstate hdeps
    obtain ⟨saved, hsaved, rfl, spec, runSeq, jobSeq, created, hspec, haccepts, hjobs⟩ :=
      h.savedOf hstore hrun
    obtain ⟨hin, rfl, hrejected, hjobState⟩ := hjobs.job haccepts hj
    refine couldGoElsewhere_iff.1 ((hroom job hrejected).trans ?_)
    exact hfits saved hsaved spec hspec job.spec hin (hjobState ▸ hstate)
      ((hjobs.depBad haccepts hin).1 hdeps)

end

/-! ### Over all lives -/

/-- In a controller that runs, no job waits for capacity that does not exist. -/
def Life.WaitsForRoom : Life → Prop
  | .up _ s => Roster.WaitsForRoom s
  | .down _ => True

/-- When the controller is started, what is stored fits the nodes it is started with. -/
def Life.StillFits : Life → LifeEvent → Prop
  | .down store, .start cfg pools found _ => Roster.StillFits cfg pools found store
  | _, _ => True

/-- What holds in every life, and between them, whichever writes failed. -/
def Life.RoomInv : Life → Prop
  | .up _ s => KeysInv s ∧ s.daemon.store.Sound
  | .down store => store.Sound

theorem Life.RoomInv.step {life life' : Life} {event : LifeEvent} (hinv : life.RoomInv)
    (h : LifeStep life event life') : life'.RoomInv := by
  cases h with
  | sched hperform =>
    have hstep := step_of_perform hperform
    exact ⟨hinv.1.step hstep, hinv.2.step hinv.1 hstep⟩
  | stop => exact hinv.2
  | @start cfg pools found now store daemon hlen htake =>
    have hstore : (DaemonState.new pools store).store.Sound := hinv
    exact ⟨(hstore.restored hlen htake).keysInv hstore, hstore.takeBackRunList htake⟩
  | @startStop cfg pools found now runs jobs store daemon _ htake =>
    have hstore : (DaemonState.new pools store).store.Sound := hinv
    exact hstore.takeBackUntil htake

theorem Life.RoomInv.reach {life : Life} (h : lives.Reach (.down ⟨[], []⟩) life) : life.RoomInv :=
  h.invariant (I := Life.RoomInv) RunStore.Sound.empty fun _ _ _ _ hinv hstep => hinv.step hstep

/-- **No job waits for capacity that does not exist**, in any life of a controller that is only
ever started on stores whose waiting jobs fit its nodes; and right after a start it is so exactly
if they do. -/
theorem no_wait_without_room (life : Life) :
    ((lives.guard Life.StillFits).Reach (.down ⟨[], []⟩) life → life.WaitsForRoom) ∧
    (lives.Reach (.down ⟨[], []⟩) life → ∀ cfg pools found now daemon,
      LifeStep life (.start cfg pools found now) (.up cfg (.starting daemon)) →
      ((Life.up cfg (.starting daemon)).WaitsForRoom ↔
        life.StillFits (.start cfg pools found now))) := by
  constructor
  · intro hreach
    refine (hreach.invariant (I := fun life => life.RoomInv ∧ life.WaitsForRoom)
      ⟨RunStore.Sound.empty, trivial⟩ ?_).2
    rintro life event life' - ⟨hinv, hroom⟩ ⟨hfits, hstep⟩
    refine ⟨hinv.step hstep, ?_⟩
    cases hstep with
    | sched hperform => exact WaitsForRoom.step hinv.1 hroom (step_of_perform hperform)
    | stop => trivial
    | start hlen htake =>
      exact ((RunStore.Sound.restored hinv hlen htake).waitsForRoom_iff hinv).2 hfits
    | startStop _ _ => trivial
  · intro hreach cfg pools found now daemon hstart
    cases hstart with
    | start hlen htake =>
      have hstore : RunStore.Sound _ := Life.RoomInv.reach hreach
      exact (hstore.restored hlen htake).waitsForRoom_iff hstore

/-! ### A run -/

/-- A job that takes four cores. -/
def wideJob : WorkflowSpec :=
  ⟨"wide", [{ id := "a", command := "true", resources := { cpu := 4 } }]⟩

/-- It is submitted to the controller of one machine, which has them, and stored. -/
def submitsWide : Label := .submit "r" wideJob wideJob.jobs 0 true fun _ => true

/-- What is stored of it. -/
def wideStore : RunStore where
  runs := [⟨"r", "wide", 0, some wideJob⟩]
  jobs := [⟨"r", "a", "Pending", none, none, none, none, none, none, none⟩]

/-- Every write succeeded, and what was stored fits. -/
def Life.Smooth (life : Life) (event : LifeEvent) : Prop :=
  life.StoreOk event ∧ life.StillFits event

theorem wideStore_reach : (lives.guard Life.Smooth).Reach (.down ⟨[], []⟩) (.down wideStore) := by
  have hstart : StillFits oneMachine [.new ⟨4, 8192, []⟩] (fun _ => none) ⟨[], []⟩ := by
    intro saved hsaved
    obtain ⟨row, hrow, -⟩ := RunStore.mem_unfinishedRuns.1 hsaved
    cases hrow
  have hrun : (firstStart.run oneMachine [submitsWide]).map (fun s => s.daemon.store) =
      some wideStore := by decide
  obtain ⟨s, hs, hstore⟩ := Option.map_eq_some_iff.1 hrun
  obtain ⟨mid, hmid, hnil⟩ := SchedulerState.run_cons.1 hs
  obtain rfl := Option.some.inj hnil
  have hfirst : (lives.guard Life.Smooth).step (.down ⟨[], []⟩)
      (.start oneMachine [.new ⟨4, 8192, []⟩] (fun _ => none) 0) (.up oneMachine firstStart) :=
    ⟨⟨trivial, hstart⟩, .start rfl (takeBackRuns_nil _ _ _ _ _)⟩
  have hsubmit : (lives.guard Life.Smooth).step (.up oneMachine firstStart) (.sched submitsWide)
      (.up oneMachine mid) := ⟨⟨RunStore.fresh_nil "r", trivial⟩, .sched hmid⟩
  have hstop : (lives.guard Life.Smooth).step (.up oneMachine mid) .stop (.down wideStore) :=
    ⟨⟨trivial, trivial⟩, hstore ▸ .stop⟩
  exact ((LTS.Reach.refl.tail hfirst).tail hsubmit).tail hstop

theorem wideStore_saved :
    (⟨"r", 0, some wideJob, wideStore.jobs⟩ : SavedRun) ∈ wideStore.unfinishedRuns :=
  RunStore.mem_unfinishedRuns.2 ⟨_, List.mem_singleton_self _, by decide, rfl⟩

/-- The controller starts again, on a machine with so many cores. -/
theorem wideStore_starts (cores : UInt32) : ∃ daemon,
    LifeStep (.down wideStore) (.start oneMachine [.new ⟨cores, 8192, []⟩] (fun _ => none) 1)
      (.up oneMachine (.starting daemon)) := by
  have hinv : Recoverable wideStore := Life.Inv.reach (wideStore_reach.guard_mono fun _ _ h => h.1)
  have hlen : [ResourcePool.new ⟨cores, 8192, []⟩].length = oneMachine.nodes.length := rfl
  obtain ⟨daemon, hdaemon, -⟩ := hinv.takeBackRuns_ok (fun _ => none) 1 hlen
  exact ⟨daemon, .start hlen hdaemon⟩

/-- On the same machine the job has room. -/
theorem wideStore_waits : ∃ daemon,
    LifeStep (.down wideStore) (.start oneMachine [.new ⟨4, 8192, []⟩] (fun _ => none) 1)
      (.up oneMachine (.starting daemon)) ∧
    (Life.up oneMachine (.starting daemon)).WaitsForRoom ∧
    StillFits oneMachine [.new ⟨4, 8192, []⟩] (fun _ => none) wideStore := by
  obtain ⟨daemon, hstart⟩ := wideStore_starts 4
  have hfits : StillFits oneMachine [.new ⟨4, 8192, []⟩] (fun _ => none) wideStore := by
    intro saved hsaved spec hspec job hmem _ _
    obtain ⟨row, hrow, -, rfl⟩ := RunStore.mem_unfinishedRuns.1 hsaved
    obtain rfl := List.mem_singleton.1 hrow
    obtain rfl := Option.some.inj hspec
    obtain rfl := List.mem_singleton.1 hmem
    decide
  have hreach : (lives.guard Life.StillFits).Reach (.down ⟨[], []⟩) (.down wideStore) :=
    wideStore_reach.guard_mono fun _ _ h => h.2
  have hstep : (lives.guard Life.StillFits).step (.down wideStore)
      (.start oneMachine [.new ⟨4, 8192, []⟩] (fun _ => none) 1)
      (.up oneMachine (.starting daemon)) := ⟨hfits, hstart⟩
  have hwaits := (no_wait_without_room _).1 (hreach.tail hstep)
  exact ⟨daemon, hstart, hwaits,
    ((no_wait_without_room _).2 wideStore_reach.of_guard _ _ _ _ _ hstart).1 hwaits⟩

/-- On a machine with two cores it waits for ever. -/
theorem wideStore_stuck : ∃ life, lives.Reach (.down ⟨[], []⟩) life ∧ ¬ life.WaitsForRoom := by
  obtain ⟨daemon, hstart⟩ := wideStore_starts 2
  have hreach := wideStore_reach.of_guard
  refine ⟨_, hreach.tail hstart, fun hwaits => ?_⟩
  have hstore : wideStore.Sound := Life.RoomInv.reach hreach
  have hfits : StillFits oneMachine [.new ⟨2, 8192, []⟩] (fun _ => none) wideStore := by
    cases hstart with
    | start hlen htake => exact ((hstore.restored hlen htake).waitsForRoom_iff hstore).1 hwaits
  have hroom := hfits _ wideStore_saved wideJob rfl _ (List.mem_singleton_self _) (.inl (by decide))
    fun dep hdep => absurd hdep List.not_mem_nil
  exact absurd hroom (by decide)

end Roster
