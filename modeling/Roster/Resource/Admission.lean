import Roster.Resource.FirstFit
import Roster.Scheduler.Tick

/-!
# The admission predicates agree

A pool is asked three questions about a request: whether it can admit it now (`canAdmit`), whether
it could ever fit (`couldFit`), and to reserve it (`tryReserve`).  Each is written on its own, over
what is free, over the totals, and as the reservation itself.  On a pool that keeps the pool
invariant they are one predicate: `canAdmit` says whether `tryReserve` would succeed, `couldFit`
whether it would on the same inventory with nothing reserved and nothing blocked
(`admission_agrees`).

The check `handle_submit` makes with `couldFit` therefore refuses a workflow exactly when `place`
returns nothing for one of its jobs on idle, unblocked and online nodes (`fitCheck_iff`).
-/

namespace Roster

namespace ResourcePool

/-- The request is reserved. -/
def Reserves (pool : ResourcePool) (spec : ResourceSpec) : Prop :=
  ∃ alloc pool', pool.tryReserve spec = .ok (some alloc, pool')

/-- What admission needs of the pool invariant: the cards are numbered by position, each has a slot
and a flag, and no more is free than there is. -/
structure Tracked (pool : ResourcePool) : Prop where
  indexed : pool.total.Indexed
  slots : pool.availableVramMb.length = pool.total.gpus.length
  flags : pool.blocked.length = pool.total.gpus.length
  cpu : pool.availableCpu ≤ pool.total.cpuCores
  memory : pool.availableMemoryMb ≤ pool.total.memoryMb

/-- The same inventory with nothing reserved and nothing blocked. -/
def idle (pool : ResourcePool) : ResourcePool := .new pool.total

variable {pool : ResourcePool} {spec : ResourceSpec}

theorem Tracked.idle (h : pool.Tracked) : pool.idle.Tracked where
  indexed := h.indexed
  slots := by simp [ResourcePool.idle, new]
  flags := by simp [ResourcePool.idle, new]
  cpu := UInt32.le_refl _
  memory := UInt64.le_refl _

theorem Tracked.inRange (h : pool.Tracked) : pool.InRange := fun _ hgpu _ =>
  have hlt := (List.getElem?_eq_some_iff.1 (h.indexed.getElem?_index hgpu)).1
  ⟨h.slots ▸ hlt, h.flags ▸ hlt⟩

theorem Tracked.distinct (h : pool.Tracked) : pool.Distinct :=
  h.indexed.nodup.sublist (List.Sublist.map _ List.filter_sublist)

/-! ### What each question counts -/

/-- The cards found are as many as are asked for, if so many can be handed out. -/
theorem tryFindGpus_isSome (hin : pool.InRange) (spec : ResourceSpec) :
    ∃ found, pool.tryFindGpus spec = .ok found ∧ (found.isSome = true ↔
      spec.gpu.toNat ≤ pool.total.gpus.countP (pool.admits spec.vramPerGpu)) := by
  unfold tryFindGpus
  split
  · next hzero => exact ⟨some [], rfl, by simp [hzero]⟩
  · obtain ⟨selected, hsel⟩ := selectGpus_ok spec.vramPerGpu spec.gpu.toNat hin
    refine ⟨_, by rw [hsel]; rfl, ?_⟩
    have hlen : selected.length =
        min spec.gpu.toNat (pool.total.gpus.countP (pool.admits spec.vramPerGpu)) := by
      rw [selectGpus_eq_ok hsel, List.length_map, List.length_take, List.countP_eq_length_filter]
    by_cases hfew : spec.gpu.toNat ≤ pool.total.gpus.countP (pool.admits spec.vramPerGpu)
    · simp [hlen, hfew]
    · simp [hlen, hfew, Nat.le_of_not_le hfew, (Nat.lt_of_not_le hfew).ne]

/-- What `try_reserve` asks for, read off the pool. -/
def Admits (pool : ResourcePool) (spec : ResourceSpec) : Prop :=
  spec.cpu ≤ pool.availableCpu ∧ spec.memoryMb ≤ pool.availableMemoryMb ∧
    spec.gpu.toNat ≤ pool.total.gpus.countP (pool.admits spec.vramPerGpu)

theorem canAdmit_iff (hin : pool.InRange) (spec : ResourceSpec) :
    ∃ answer, pool.canAdmit spec = .ok answer ∧ (answer = true ↔ pool.Admits spec) := by
  obtain ⟨found, hfound, hiff⟩ := tryFindGpus_isSome hin spec
  refine ⟨_, by rw [canAdmit, hfound]; rfl, ?_⟩
  simp only [Bool.and_eq_true, decide_eq_true_eq, hiff, Admits]
  tauto

theorem reserves_iff (hin : pool.InRange) (hdistinct : pool.Distinct) :
    pool.Reserves spec ↔ pool.Admits spec := by
  obtain ⟨⟨found, pool'⟩, hok⟩ : ∃ result, pool.tryReserve spec = .ok result :=
    tryReserve_ok hin hdistinct
  constructor
  · rintro ⟨alloc, pool'', h⟩
    obtain ⟨hnone, -⟩ | ⟨_, gpus, halloc, hres, hcpu, hmem, hlen, hadm⟩ := tryReserve_eq_ok h
    · cases hnone
    obtain rfl := Option.some.inj halloc
    refine ⟨?_, ?_, ?_⟩
    · have hfree := congrFun hres.free .cpu
      simp only [Pi.add_apply, free, Allocation.amount, hcpu] at hfree
      rw [UInt32.le_iff_toNat_le]
      omega
    · have hfree := congrFun hres.free .memory
      simp only [Pi.add_apply, free, Allocation.amount, hmem] at hfree
      rw [UInt64.le_iff_toNat_le]
      omega
    · rw [← hlen, ← hres.cards, List.length_map, ← List.countP_eq_length.2 hadm]
      exact hres.sublist.countP_le
  · rintro hadm
    -- a reservation that takes nothing would mean that the pool does not admit the request
    cases found with
    | some alloc => exact ⟨alloc, pool', hok⟩
    | none =>
      obtain ⟨answer, hanswer, hiff⟩ := canAdmit_iff hin spec
      rw [canAdmit_of_tryReserve hok hin, Except.ok.injEq] at hanswer
      subst hanswer
      exact absurd (hiff.2 hadm) (by decide)

/-- What `could_fit` asks for, read off the inventory. -/
theorem couldFit_iff : pool.couldFit spec = true ↔
    spec.cpu ≤ pool.total.cpuCores ∧ spec.memoryMb ≤ pool.total.memoryMb ∧
      spec.gpu.toNat ≤ pool.total.gpus.countP fun gpu =>
        decide (0 < gpu.vramMb) && decide (spec.vramPerGpu ≤ gpu.vramMb) := by
  simp only [couldFit, Bool.and_eq_true, decide_eq_true_eq, and_assoc]

/-- A card that can be handed out counts for the totals as well. -/
theorem couldFit_of_admits (h : pool.Tracked) (hadm : pool.Admits spec) :
    pool.couldFit spec = true := by
  obtain ⟨hcpu, hmem, hcards⟩ := hadm
  refine couldFit_iff.2 ⟨UInt32.le_trans hcpu h.cpu, UInt64.le_trans hmem h.memory,
    hcards.trans (List.countP_mono_left fun gpu _ hgpu => ?_)⟩
  obtain ⟨hne, -, -, hshare⟩ := admits_iff.1 hgpu
  simp [UInt64.pos_iff_ne_zero.2 hne, hshare]

/-- On an idle pool every card with VRAM and the share can be handed out. -/
theorem admits_idle (h : pool.total.Indexed) {gpu : GpuInfo} (hgpu : gpu ∈ pool.total.gpus)
    (share : UInt64) : pool.idle.admits share gpu =
      (decide (0 < gpu.vramMb) && decide (share ≤ gpu.vramMb)) := by
  have hslot := h.getElem?_index hgpu
  have hlt := (List.getElem?_eq_some_iff.1 hslot).1
  have hget := (List.getElem?_eq_some_iff.1 hslot).2
  simp [admits, idle, new, hlt, hget, UInt64.pos_iff_ne_zero]

theorem couldFit_iff_admits (h : pool.total.Indexed) :
    pool.couldFit spec = true ↔ pool.idle.Admits spec := by
  rw [couldFit_iff, Admits]
  have hcount : pool.idle.total.gpus.countP (pool.idle.admits spec.vramPerGpu) =
      pool.total.gpus.countP fun gpu =>
        decide (0 < gpu.vramMb) && decide (spec.vramPerGpu ≤ gpu.vramMb) :=
    List.countP_congr fun gpu hgpu => by rw [admits_idle h hgpu]
  rw [hcount]
  exact Iff.rfl

/-! ### The three questions -/

theorem Tracked.reserves_iff (h : pool.Tracked) : pool.Reserves spec ↔ pool.Admits spec :=
  ResourcePool.reserves_iff h.inRange h.distinct

theorem Tracked.couldFit_iff (h : pool.Tracked) :
    pool.couldFit spec = true ↔ pool.idle.Reserves spec :=
  (couldFit_iff_admits h.indexed).trans h.idle.reserves_iff.symm

end ResourcePool

/-- The pool invariant gives what admission needs. -/
theorem Accounts.tracked {pool : ResourcePool} {held : Multiset Allocation}
    (h : Accounts pool held) : pool.Tracked where
  indexed := h.indexed
  slots := h.slots
  flags := h.flags
  cpu := UInt32.le_iff_toNat_le.2 (h.balanced.free_le .cpu)
  memory := UInt64.le_iff_toNat_le.2 (h.balanced.free_le .memory)

/-! ### The fit check -/

theorem fitsSomeNode_iff {pools : List ResourcePool} (h : ∀ pool ∈ pools, pool.Tracked)
    {job : JobSpec} : fitsSomeNode pools job = true ↔
      ∃ pool ∈ pools, ∃ option ∈ job.resources.gpuOptions, pool.idle.Reserves option := by
  simp only [fitsSomeNode, List.any_eq_true]
  constructor
  · rintro ⟨pool, hpool, option, hoption, hfit⟩
    exact ⟨pool, hpool, option, hoption, (h pool hpool).couldFit_iff.1 hfit⟩
  · rintro ⟨pool, hpool, option, hoption, hres⟩
    exact ⟨pool, hpool, option, hoption, (h pool hpool).couldFit_iff.2 hres⟩

/-- Every node online, idle and unblocked. -/
def idleNodes (pools : List ResourcePool) : List ResourcePool := pools.map ResourcePool.idle

/-- With every node idle and online, a job is placed exactly if it passes the fit check. -/
theorem place_idle_iff {pools : List ResourcePool} (h : ∀ pool ∈ pools, pool.Tracked)
    (job : JobSpec) : ∃ found pools',
      place (idleNodes pools) (List.replicate pools.length true) [job.resources] =
        .ok (found, pools') ∧ (found.isSome = true ↔ fitsSomeNode pools job = true) := by
  have hbooks : ∀ pool ∈ idleNodes pools, ∃ held, Books pool held := by
    intro idle hidle
    obtain ⟨pool, hpool, rfl⟩ := List.mem_map.1 hidle
    exact ⟨0, .new (h pool hpool).indexed.numbered⟩
  have hlength : (List.replicate pools.length true).length = (idleNodes pools).length := by
    simp [idleNodes]
  obtain ⟨found, pools', hplace, -, -, hmiss⟩ := place_firstFit hbooks hlength [job.resources]
  refine ⟨found, pools', hplace, ?_⟩
  rw [fitsSomeNode_iff h]
  constructor
  · intro hsome
    obtain ⟨hnone, -⟩ | ⟨node, alloc, -, option, hoption, hplaced⟩ := place_single_eq_ok hplace
    · rw [hnone] at hsome; cases hsome
    obtain ⟨idle, idle', hidle, hres, -⟩ := hplaced.reserved
    obtain ⟨pool, hpool, rfl⟩ := List.mem_map.1 (List.mem_of_getElem? hidle)
    exact ⟨pool, hpool, option, hoption, alloc, idle', hres⟩
  · rintro ⟨pool, hpool, option, hoption, hres⟩
    by_contra hnone
    obtain ⟨node, hnode⟩ := List.mem_iff_getElem?.1 hpool
    have hlt := (List.getElem?_eq_some_iff.1 hnode).1
    have hrefused := hmiss job.resources rfl (by simpa using hnone) option hoption node pool.idle
      (by simp [idleNodes, hnode]) (by simp [hlt])
    have htracked := (h pool hpool).idle
    obtain ⟨answer, hanswer, hiff⟩ :=
      ResourcePool.canAdmit_iff htracked.inRange option
    rw [hrefused, Except.ok.injEq] at hanswer
    subst hanswer
    exact absurd (hiff.2 (htracked.reserves_iff.1 hres)) (by decide)

/-- The fit check refuses a workflow exactly when some job is not placed on idle, unblocked and
online nodes. -/
theorem fitCheck_iff {pools : List ResourcePool} (h : ∀ pool ∈ pools, pool.Tracked)
    (jobs : List JobSpec) : jobs.all (fitsSomeNode pools) = false ↔
      ∃ job ∈ jobs, ∃ pools', place (idleNodes pools) (List.replicate pools.length true)
        [job.resources] = .ok (none, pools') := by
  rw [List.all_eq_false]
  refine exists_congr fun job => and_congr_right fun _ => ?_
  obtain ⟨found, pools', hplace, hiff⟩ := place_idle_iff h job
  rw [← hiff, hplace]
  cases found with
  | none => simp
  | some placement => simp

/-- **The admission predicates agree.**  On pools that keep the pool invariant, `canAdmit` answers
whether `tryReserve` would succeed, which implies `couldFit`; `couldFit` says whether `tryReserve`
succeeds on the same inventory with nothing reserved and nothing blocked.  The fit check of
`handle_submit` refuses a workflow exactly when `place` returns nothing for one of its jobs with
every node online, idle and unblocked. -/
theorem admission_agrees (pools : List ResourcePool) (h : ∀ pool ∈ pools, pool.Tracked) :
    (∀ pool ∈ pools, ∀ spec : ResourceSpec,
      (∃ answer, pool.canAdmit spec = .ok answer ∧ (answer = true ↔ pool.Reserves spec)) ∧
      (pool.Reserves spec → pool.couldFit spec = true) ∧
      (pool.couldFit spec = true ↔ pool.idle.Reserves spec)) ∧
    ∀ jobs : List JobSpec, jobs.all (fitsSomeNode pools) = false ↔
      ∃ job ∈ jobs, ∃ pools', place (idleNodes pools) (List.replicate pools.length true)
        [job.resources] = .ok (none, pools') := by
  refine ⟨fun pool hpool spec => ⟨?_, fun hres => ?_, (h pool hpool).couldFit_iff⟩,
    fun jobs => fitCheck_iff h jobs⟩
  · obtain ⟨answer, hanswer, hiff⟩ :=
      ResourcePool.canAdmit_iff (h pool hpool).inRange spec
    exact ⟨answer, hanswer, hiff.trans (h pool hpool).reserves_iff.symm⟩
  · exact ResourcePool.couldFit_of_admits (h pool hpool) ((h pool hpool).reserves_iff.1 hres)

/-- A node with two cards: one booked, the other kept out of placement. -/
def busyNode : ResourcePool where
  total := ⟨8, 16384, [⟨0, "fake", 24576, ""⟩, ⟨1, "fake", 24576, ""⟩]⟩
  availableCpu := 6
  availableMemoryMb := 15360
  availableVramMb := [0, 24576]
  blocked := [false, true]

/-- A request for both cards is not reserved now, but would be on the idle node. -/
theorem busyNode_admission :
    ¬ busyNode.Reserves ⟨1, 512, 2, 40000⟩ ∧ busyNode.idle.Reserves ⟨1, 512, 2, 40000⟩ := by
  have htracked : busyNode.Tracked := ⟨by decide, rfl, rfl, by decide, by decide⟩
  obtain ⟨hagree, -⟩ := admission_agrees [busyNode] (by simpa using htracked)
  obtain ⟨⟨answer, hanswer, hfits⟩, -, hfit⟩ := hagree busyNode (by simp) ⟨1, 512, 2, 40000⟩
  have hnow : busyNode.canAdmit ⟨1, 512, 2, 40000⟩ = .ok false := by decide
  obtain rfl := Except.ok.inj (hnow.symm.trans hanswer)
  exact ⟨fun hres => absurd (hfits.2 hres) (by decide), hfit.1 (by decide)⟩

end Roster
