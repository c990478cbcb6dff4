import Roster.Scheduler.Apply
import Roster.Scheduler.Step

/-!
# What nodes have stays

No section of the scheduler changes what a node has in all, only what of it is free
(`Step.inventories_eq`).  What could ever fit goes by what nodes have (`couldGoElsewhere_congr`), so
it stays too.
-/

namespace Roster

/-- What the nodes have in all. -/
def inventories (pools : List ResourcePool) : List SystemResources := pools.map ResourcePool.total

theorem inventories_set {pools : List ResourcePool} {node : ℕ} {pool pool' : ResourcePool}
    (hpool : pools[node]? = some pool) (htotal : pool'.total = pool.total) :
    inventories (pools.set node pool') = inventories pools := by
  obtain ⟨hlt, rfl⟩ := List.getElem?_eq_some_iff.1 hpool
  have hin : node < (inventories pools).length := by rwa [inventories, List.length_map]
  have hsame := List.set_getElem_self hin
  rw [inventories, List.map_set, htotal]
  simpa [inventories] using hsame

theorem inventories_releaseOn {pools pools' : List ResourcePool} {member : ℕ × Allocation}
    (h : releaseOn pools member = .ok pools') : inventories pools' = inventories pools := by
  obtain ⟨pool, pool', hpool, hrelease, rfl⟩ := Exec.update_eq_ok.1 h
  exact inventories_set hpool (ResourcePool.release_eq_ok.1 hrelease).2.1.total

theorem inventories_releaseExecutions {pools pools' : List ResourcePool}
    {executions : List Execution} (h : releaseExecutions pools executions = .ok pools') :
    inventories pools' = inventories pools :=
  Exec.foldlM_invariant (P := fun mid => inventories mid = inventories pools)
    (fun _ _ _ _ hmid hok => (inventories_releaseOn hok).trans hmid) h rfl

theorem inventories_finishQualifications {pools pools' : List ResourcePool}
    {ended : List Qualification} (h : finishQualifications pools ended = .ok pools') :
    inventories pools' = inventories pools :=
  Exec.foldlM_invariant (P := fun mid => inventories mid = inventories pools)
    (fun _ _ _ _ hmid hok => (inventories_releaseOn hok).trans hmid) h rfl

/-! ### The check -/

theorem checkCard_total {node : ℕ} {view : NodeView} {reading : List GpuHealth}
    {lastQualified : List ((ℕ × UInt32) × Instant)} {utc : DateTime} {now : Instant}
    {check check' : CardCheck} {gpu : GpuInfo}
    (h : checkCard node view reading lastQualified utc now check gpu = .ok check') :
    check'.pool.total = check.pool.total := by
  cases checkCard_eq_ok h with
  | flagged hblock =>
    obtain ⟨-, free, -, rfl⟩ := blockCard_eq_ok.1 hblock
    rfl
  | reserved hblock _ hreserved =>
    obtain ⟨-, free, -, rfl⟩ := blockCard_eq_ok.1 hblock
    exact hreserved.alike.total

theorem checkNode_total {node : ℕ} {view : NodeView}
    {lastQualified : List ((ℕ × UInt32) × Instant)} {utc : DateTime} {now : Instant}
    {check check' : CardCheck}
    (h : checkNode node view lastQualified utc now check = .ok check') :
    check'.pool.total = check.pool.total := by
  rcases checkNode_eq_ok h with ⟨-, rfl⟩ | ⟨reading, -, -, h⟩
  · rfl
  · exact Exec.foldlM_invariant (P := fun mid => mid.pool.total = check.pool.total)
      (fun _ _ _ _ hmid hok => (checkCard_total hok).trans hmid) h rfl

theorem inventories_checkNodes {lastQualified : List ((ℕ × UInt32) × Instant)} {utc : DateTime}
    {now : Instant} {node : ℕ} {views : List NodeView} {pools pools' : List ResourcePool}
    {requalify requalify' : List (ℕ × UInt32)} {toQualify toQualify' : List ToQualify}
    (h : checkNodes lastQualified utc now node views (pools, requalify, toQualify) =
      .ok (pools', requalify', toQualify')) : inventories pools' = inventories pools := by
  induction views generalizing node pools requalify toQualify with
  | nil =>
    cases h
    rfl
  | cons view views ih =>
    simp only [checkNodes, Exec.bind_eq_ok, Exec.index_eq_ok] at h
    obtain ⟨pool, hpool, check, hcheck, hrest⟩ := h
    exact (ih hrest).trans (inventories_set hpool (checkNode_total hcheck))

theorem inventories_startQualification {pools pools' : List ResourcePool}
    {checks checks' : GpuChecks} {card : ToQualify} {launched : Except ExecutorError JobHandle}
    {now : Instant}
    (h : startQualification pools checks card launched now = .ok (pools', checks')) :
    inventories pools' = inventories pools := by
  cases launched with
  | ok handle =>
    cases h
    rfl
  | error error =>
    simp only [startQualification, Exec.bind_eq_ok, Exec.pure_eq_ok, Prod.mk.injEq] at h
    obtain ⟨mid, hmid, rfl, -⟩ := h
    exact inventories_releaseOn hmid

/-! ### The tick -/

theorem Admitted.inventories_eq {online : List Bool} {entries : List (String × JobInstance)}
    {pools pools' : List ResourcePool} {tasks : List AdmitTask}
    (h : Admitted online entries pools tasks pools') :
    inventories pools' = inventories pools := by
  induction h with
  | nil => rfl
  | wait _ ih => exact ih
  | place _ _ _ _ hplaced _ ih =>
    obtain ⟨pool, pool', hpool, hreserve, rfl⟩ := hplaced.reserved
    refine ih.trans (inventories_set hpool ?_)
    obtain ⟨hnone, -⟩ | ⟨_, _, -, hreserved, -⟩ := ResourcePool.tryReserve_eq_ok hreserve
    · cases hnone
    · exact hreserved.alike.total

theorem applyLaunch_inventories {cfg : Config} {now : DateTime} {acc acc' : Applied}
    {outcome : LaunchOutcome} (h : applyLaunch cfg now acc outcome = .ok acc') :
    inventories acc'.daemon.pools = inventories acc.daemon.pools := by
  cases applyLaunch_eq_ok h with
  | returned _ hrelease => exact inventories_releaseExecutions hrelease
  | started _ _ _ _ => rfl
  | turnedDown _ _ _ hrelease _ => exact inventories_releaseExecutions hrelease
  | failed _ _ _ _ hrelease => exact inventories_releaseExecutions hrelease

theorem applyLaunches_inventories {cfg : Config} {now : DateTime} {acc acc' : Applied}
    {outcomes : List LaunchOutcome} (h : outcomes.foldlM (applyLaunch cfg now) acc = .ok acc') :
    inventories acc'.daemon.pools = inventories acc.daemon.pools :=
  Exec.foldlM_invariant
    (P := fun mid => inventories mid.daemon.pools = inventories acc.daemon.pools)
    (fun _ _ _ _ hmid hok => (applyLaunch_inventories hok).trans hmid) h rfl

theorem applyPoll_inventories {now : DateTime} {acc acc' : Applied} {entry : PollEntry}
    (h : applyPoll now acc entry = .ok acc') :
    inventories acc'.daemon.pools = inventories acc.daemon.pools := by
  cases applyPoll_eq_ok h with
  | same _ => rfl
  | failed _ _ _ hrelease => exact inventories_releaseExecutions hrelease
  | exited _ _ hrelease => exact inventories_releaseExecutions hrelease

/-- No step changes what the nodes have. -/
theorem Step.inventories_eq {cfg : Config} {s s' : SchedulerState} {label : Label}
    (h : Step cfg s label s') :
    inventories s'.daemon.pools = inventories s.daemon.pools := by
  cases h with
  | qualificationsFinished hok => exact inventories_finishQualifications hok
  | gpusBlocked _ hok =>
    obtain ⟨pools, requalify, rfl, hcheck⟩ := blockGpus_eq_ok hok
    exact inventories_checkNodes hcheck
  | qualificationLaunched hok => exact inventories_startQualification hok
  | flushed hok =>
    obtain ⟨_, _, rfl⟩ := flushTransition_eq_ok hok
    rfl
  | admitQueued _ hok => exact (admitQueued_eq_ok hok).inventories_eq
  | launchesApplied hok => exact applyLaunches_inventories hok
  | @pollsApplied daemon _ _ _ applied hok =>
    exact Exec.foldlM_invariant
      (P := fun mid => inventories mid.daemon.pools = inventories daemon.pools)
      (fun _ _ _ _ hmid hstep => (applyPoll_inventories hstep).trans hmid) hok rfl
  | _ => rfl

/-! ### What could ever fit -/

/-- Some node that has not turned the job down has what one of its options asks for. -/
theorem couldGoElsewhere_iff {pools : List ResourcePool} {job : JobInstance} :
    couldGoElsewhere pools job = true ↔ ∃ node pool, pools[node]? = some pool ∧
      job.rejectedBy node = false ∧ ∃ option ∈ job.spec.resources.gpuOptions,
        pool.couldFit option = true := by
  simp only [couldGoElsewhere, List.any_eq_true, Bool.and_eq_true, Bool.not_eq_true']
  constructor
  · rintro ⟨⟨pool, node⟩, hmem, hfree, hfits⟩
    exact ⟨node, pool, List.mk_mem_zipIdx_iff_getElem?.1 hmem, hfree, hfits⟩
  · rintro ⟨node, pool, hpool, hfree, hfits⟩
    exact ⟨(pool, node), List.mk_mem_zipIdx_iff_getElem?.2 hpool, hfree, hfits⟩

theorem couldFit_congr {pool pool' : ResourcePool} (h : pool'.total = pool.total)
    (option : ResourceSpec) : pool'.couldFit option = pool.couldFit option := by
  simp only [ResourcePool.couldFit, h]

/-- It depends only on what the nodes have, and on the job's options and rejections. -/
theorem couldGoElsewhere_congr {pools pools' : List ResourcePool} {job job' : JobInstance}
    (hpools : inventories pools' = inventories pools) (hspec : job'.spec = job.spec)
    (hrejected : job'.rejected = job.rejected) :
    couldGoElsewhere pools' job' = couldGoElsewhere pools job := by
  have himp : ∀ {pools pools' : List ResourcePool} {job job' : JobInstance},
      inventories pools' = inventories pools → job'.spec = job.spec →
      job'.rejected = job.rejected → couldGoElsewhere pools job = true →
      couldGoElsewhere pools' job' = true := by
    intro pools pools' job job' hpools hspec hrejected h
    obtain ⟨node, pool, hpool, hfree, option, hoption, hfits⟩ := couldGoElsewhere_iff.1 h
    have hnode := congrArg (fun totals => totals[node]?) hpools
    simp only [inventories, List.getElem?_map, hpool, Option.map_some, Option.map_eq_some_iff]
      at hnode
    obtain ⟨pool', hpool', htotal⟩ := hnode
    refine couldGoElsewhere_iff.2 ⟨node, pool', hpool', ?_, option, hspec ▸ hoption, ?_⟩
    · rw [← hfree, JobInstance.rejectedBy, JobInstance.rejectedBy, hrejected]
    · rw [couldFit_congr htotal, hfits]
  exact Bool.eq_iff_iff.2 ⟨himp hpools.symm hspec.symm hrejected.symm, himp hpools hspec hrejected⟩

end Roster
