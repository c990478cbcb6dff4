import Roster.Resource.Discovery
import Roster.Resource.TakeBack
import Roster.Resource.Admission
import Roster.Scheduler.Apply

/-!
# Which inventories a pool works with

A pool fills the slots of `availableVramMb` and `blocked` in the order of the inventory and reads
them at the cards' own indices.  Both sources of an inventory can disagree with that: discovery
leaves out devices, and a declared file is taken as it is written.  `Works` is what the daemon needs
of its inventory, over every sequence of pool operations and GPU checks, and it holds exactly for
the inventories numbered by position (`works_iff_indexed`).

One check that reads every slot is enough to find a card without one (`inSlots_of_check`), and under
the numbering no operation leaves the slots (`SlotsKept.operate`).
-/

namespace Roster

/-- What happens to the pool of a node. -/
inductive InventoryOp
  | pool (op : PoolOp)
  | canAdmit (spec : ResourceSpec)
  /-- Count an allocation that is in use after a restart. -/
  | book (alloc : Allocation)
  | check (node : ℕ) (view : NodeView) (requalify : List (ℕ × UInt32))
      (lastQualified : List ((ℕ × UInt32) × Instant)) (utc : DateTime) (now : Instant)

namespace PoolState

/-- Perform one operation.  A booked allocation is given back later if the node has its cards. -/
def operate (st : PoolState) : InventoryOp → Exec PoolState
  | .pool op => st.step op
  | .canAdmit spec => do
    let _ ← st.pool.canAdmit spec
    return st
  | .book alloc => .ok ⟨st.pool.book alloc,
      if alloc.InSlots st.pool.availableVramMb.length then alloc :: st.out else st.out⟩
  | .check node view requalify lastQualified utc now => do
    let check ← checkNode node view lastQualified utc now ⟨st.pool, requalify, []⟩
    return ⟨check.pool, check.toQualify.map ToQualify.allocation ++ st.out⟩

end PoolState

/-- The inventory works: no sequence of operations on its pool indexes out of range or underflows,
no card is read at a slot that was filled from another card or that another card is read at, and
while nothing is booked or blocked every card with VRAM can be handed out. -/
structure Works (resources : SystemResources) : Prop where
  runs : ∀ ops : List InventoryOp,
    (ops.foldlM PoolState.operate (PoolState.fresh resources)).OnlyOverflows
  own : ∀ (p q : ℕ) (card other : GpuInfo), resources.gpus[p]? = some card →
    resources.gpus[q]? = some other →
    p ≠ q → card.index.toNat ≠ q ∧ card.index.toNat ≠ other.index.toNat
  free : ∀ gpu ∈ resources.gpus, gpu.vramMb ≠ 0 →
    (ResourcePool.new resources).admits 0 gpu = true

/-! ### Within the slots -/

namespace ResourcePool

theorem release_onlyOverflows {pool : ResourcePool} {alloc : Allocation}
    (hin : alloc.InSlots pool.availableVramMb.length) : (pool.release alloc).OnlyOverflows := by
  refine (Exec.onlyOverflows_addU32 _ _).bind fun cpu _ =>
    (Exec.onlyOverflows_addU64 _ _).bind fun memoryMb _ => Exec.OnlyOverflows.bind ?_ fun _ _ =>
      .of_ok rfl
  refine Exec.onlyOverflows_foldlM
    (P := fun slots => slots.length = pool.availableVramMb.length) ?_ rfl
  intro slots card hcard hlen
  refine ⟨Exec.onlyOverflows_update (hlen ▸ hin card hcard) fun free =>
    Exec.onlyOverflows_addU64 _ _, fun slots' hslots' => ?_⟩
  obtain ⟨x, y, -, -, rfl⟩ := Exec.update_eq_ok.1 hslots'
  rw [List.length_set, hlen]

end ResourcePool

/-- Each card of the inventory has a slot and a flag, and what is out is made of such cards. -/
structure SlotsKept (resources : SystemResources) (st : PoolState) : Prop where
  total : st.pool.total = resources
  slots : st.pool.availableVramMb.length = resources.gpus.length
  flags : st.pool.blocked.length = resources.gpus.length
  out : ∀ alloc ∈ st.out, alloc.InSlots resources.gpus.length

theorem slotsKept_fresh (resources : SystemResources) :
    SlotsKept resources (.fresh resources) where
  total := rfl
  slots := List.length_map _
  flags := List.length_replicate
  out := by simp [PoolState.fresh]

namespace SlotsKept

variable {resources : SystemResources} {st st' : PoolState} {pool : ResourcePool}
  {alloc : Allocation} {gpu : GpuInfo}

theorem slot_lt (h : SlotsKept resources st) (hindexed : resources.Indexed)
    (hgpu : gpu ∈ resources.gpus) : gpu.index.toNat < st.pool.availableVramMb.length ∧
      gpu.index.toNat < st.pool.blocked.length := by
  have hlt := (List.getElem?_eq_some_iff.1 (hindexed.getElem?_index hgpu)).1
  exact ⟨h.slots ▸ hlt, h.flags ▸ hlt⟩

theorem inRange (h : SlotsKept resources st) (hindexed : resources.Indexed) :
    st.pool.InRange := fun _ hgpu _ => h.slot_lt hindexed (h.total ▸ hgpu)

theorem distinct (h : SlotsKept resources st) (hindexed : resources.Indexed) :
    st.pool.Distinct := by
  unfold ResourcePool.Distinct
  rw [h.total]
  exact hindexed.nodup.sublist (List.Sublist.map _ List.filter_sublist)

theorem reserved (h : SlotsKept resources st) (hindexed : resources.Indexed)
    {gpus : List GpuInfo} (hres : st.pool.Reserved gpus alloc pool) :
    SlotsKept resources ⟨pool, alloc :: st.out⟩ where
  total := hres.alike.total.trans h.total
  slots := hres.alike.slots.trans h.slots
  flags := (congrArg List.length hres.alike.blocked).trans h.flags
  out := List.forall_mem_cons.2 ⟨fun card hcard => by
    obtain ⟨gpu, hgpu, rfl⟩ := List.mem_map.1 (hres.cards ▸ hcard)
    exact h.slots ▸ (h.slot_lt hindexed (h.total ▸ hres.sublist.subset hgpu)).1, h.out⟩

theorem flagged (h : SlotsKept resources st) {blocked : List Bool}
    (hlen : blocked.length = st.pool.blocked.length) :
    SlotsKept resources { st with pool := { st.pool with blocked := blocked } } :=
  ⟨h.total, h.slots, hlen.trans h.flags, h.out⟩

theorem moved (h : SlotsKept resources st) (hindexed : resources.Indexed)
    (hmove : PoolState.Moved st st') : SlotsKept resources st' := by
  cases hmove with
  | same => exact h
  | reserved pool alloc gpus hres => exact h.reserved hindexed hres
  | released pool alloc rest hperm hok =>
    have halike := (ResourcePool.release_eq_ok.1 hok).2.1
    exact ⟨halike.total.trans h.total, halike.slots.trans h.slots,
      (congrArg List.length halike.blocked).trans h.flags,
      fun a ha => h.out a (hperm.symm.subset (List.mem_cons_of_mem _ ha))⟩
  | flagged blocked hlen => exact h.flagged hlen

theorem booked (h : SlotsKept resources st) (alloc : Allocation) :
    SlotsKept resources ⟨st.pool.book alloc,
      if alloc.InSlots st.pool.availableVramMb.length then alloc :: st.out else st.out⟩ := by
  have halike := ResourcePool.alike_book st.pool alloc
  refine ⟨halike.total.trans h.total, halike.slots.trans h.slots,
    (congrArg List.length halike.blocked).trans h.flags, ?_⟩
  split
  · next hin => exact List.forall_mem_cons.2 ⟨h.slots ▸ hin, h.out⟩
  · exact h.out

theorem step_onlyOverflows (h : SlotsKept resources st) (hindexed : resources.Indexed)
    (op : PoolOp) : (st.step op).OnlyOverflows := by
  cases op with
  | tryReserve spec =>
    obtain ⟨found, hok⟩ : ∃ found, st.pool.tryReserve spec = .ok found :=
      ResourcePool.tryReserve_ok (h.inRange hindexed) (h.distinct hindexed)
    exact (Exec.OnlyOverflows.of_ok hok).bind fun ⟨_, _⟩ _ => .of_ok rfl
  | reserveCard index =>
    obtain ⟨found, hok⟩ := ResourcePool.reserveCard_ok index (h.inRange hindexed)
    exact (Exec.OnlyOverflows.of_ok hok).bind fun ⟨_, _⟩ _ => .of_ok rfl
  | release k =>
    cases hk : st.out[k]? with
    | none => exact .of_ok (a := st) (by simp only [PoolState.step, hk])
    | some alloc =>
      simp only [PoolState.step, hk]
      have hin := h.out alloc (List.mem_of_getElem? hk)
      rw [← h.slots] at hin
      exact (ResourcePool.release_onlyOverflows hin).bind fun _ _ => .of_ok rfl
  | setBlocked flags => exact .of_ok rfl

/-! ### The check -/

/-- A check of one card succeeds and leaves the slots as many as they are. -/
theorem checkCard {out : List Allocation} {check : CardCheck} (hindexed : resources.Indexed)
    (h : SlotsKept resources ⟨check.pool, check.toQualify.map ToQualify.allocation ++ out⟩)
    (node : ℕ) (view : NodeView) (reading : List GpuHealth)
    (lastQualified : List ((ℕ × UInt32) × Instant)) (utc : DateTime) (now : Instant)
    (hgpu : gpu ∈ resources.gpus) :
    ∃ check', Roster.checkCard node view reading lastQualified utc now check gpu = .ok check' ∧
      SlotsKept resources ⟨check'.pool, check'.toQualify.map ToQualify.allocation ++ out⟩ := by
  obtain ⟨hslot, hflag⟩ := h.slot_lt hindexed hgpu
  obtain ⟨pool, hblock⟩ : ∃ pool, blockCard check.pool (readingOf reading gpu) gpu = .ok pool :=
    ⟨_, blockCard_eq_ok.2 ⟨hflag, _, List.getElem?_eq_getElem hslot, rfl⟩⟩
  have hpool : SlotsKept resources
      ⟨pool, check.toQualify.map ToQualify.allocation ++ out⟩ := by
    obtain ⟨-, free, -, rfl⟩ := blockCard_eq_ok.1 hblock
    exact h.flagged List.length_set
  unfold Roster.checkCard
  rw [hblock, Exec.ok_bind]
  split
  · exact ⟨_, rfl, hpool⟩
  split
  · obtain ⟨⟨found, pool'⟩, hres⟩ :=
      ResourcePool.reserveCard_ok gpu.index (hpool.inRange hindexed)
    rw [hres, Exec.ok_bind]
    rcases ResourcePool.reserveCard_eq_ok hres with ⟨rfl, rfl⟩ | ⟨card, -, rfl, hreserved⟩
    · exact ⟨_, rfl, hpool⟩
    · have hnew := hpool.reserved hindexed hreserved
      refine ⟨_, rfl, hnew.total, hnew.slots, hnew.flags, fun a ha => hnew.out a ?_⟩
      simpa [or_left_comm, or_assoc] using ha
  · exact ⟨_, rfl, hpool⟩

theorem checkNode {out : List Allocation} {check : CardCheck} (hindexed : resources.Indexed)
    (h : SlotsKept resources ⟨check.pool, check.toQualify.map ToQualify.allocation ++ out⟩)
    (node : ℕ) (view : NodeView) (lastQualified : List ((ℕ × UInt32) × Instant))
    (utc : DateTime) (now : Instant) :
    ∃ check', Roster.checkNode node view lastQualified utc now check = .ok check' ∧
      SlotsKept resources ⟨check'.pool, check'.toQualify.map ToQualify.allocation ++ out⟩ := by
  unfold Roster.checkNode
  split
  · exact ⟨_, rfl, h.flagged List.length_replicate⟩
  · next reading _ =>
    have htotal : check.pool.total = resources := h.total
    rw [htotal]
    exact Exec.foldlM_total (fun mid gpu hgpu hmid =>
      hmid.checkCard hindexed node view reading lastQualified utc now hgpu) h

/-! ### Every operation -/

/-- No operation leaves the slots. -/
theorem operate (h : SlotsKept resources st) (hindexed : resources.Indexed) (op : InventoryOp) :
    (st.operate op).OnlyOverflows ∧
      ∀ st', st.operate op = .ok st' → SlotsKept resources st' := by
  cases op with
  | pool op =>
    exact ⟨h.step_onlyOverflows hindexed op,
      fun st' hok => h.moved hindexed (PoolState.step_moved hok)⟩
  | canAdmit spec =>
    obtain ⟨answer, hok, -⟩ := ResourcePool.canAdmit_iff (h.inRange hindexed) spec
    refine ⟨(Exec.OnlyOverflows.of_ok hok).bind fun _ _ => .of_ok rfl, fun st' hst' => ?_⟩
    obtain ⟨-, -, rfl⟩ : ∃ a, st.pool.canAdmit spec = .ok a ∧ st = st' := by
      simpa [PoolState.operate] using hst'
    exact h
  | book alloc =>
    refine ⟨.of_ok rfl, ?_⟩
    rintro _ ⟨⟩
    exact h.booked alloc
  | check node view requalify lastQualified utc now =>
    obtain ⟨check, hok, hkept⟩ :=
      @checkNode _ st.out ⟨st.pool, requalify, []⟩ hindexed h node view lastQualified utc now
    have hoperate : st.operate (.check node view requalify lastQualified utc now) =
        .ok ⟨check.pool, check.toQualify.map ToQualify.allocation ++ st.out⟩ := by
      rw [PoolState.operate, hok, Exec.ok_bind]
      rfl
    refine ⟨.of_ok hoperate, fun st' hst' => ?_⟩
    obtain rfl := Except.ok.inj (hoperate.symm.trans hst')
    exact hkept

end SlotsKept

/-! ### A check finds the card without a slot -/

/-- What a check sees of a node that is up and reports none of its cards. -/
def emptyView : NodeView := ⟨true, some [], fun _ => true⟩

/-- A check that goes over the cards without an index out of range found a slot for each. -/
theorem inSlots_of_check {gpus : List GpuInfo} {check : CardCheck}
    {lastQualified : List ((ℕ × UInt32) × Instant)} {utc : DateTime} {now : Instant} {node : ℕ}
    (hlen : check.pool.blocked.length = check.pool.availableVramMb.length)
    (h : (gpus.foldlM (checkCard node emptyView [] lastQualified utc now) check).OnlyOverflows) :
    ∀ gpu ∈ gpus, gpu.index.toNat < check.pool.availableVramMb.length := by
  induction gpus generalizing check with
  | nil => simp
  | cons gpu gpus ih =>
    have hcard : checkCard node emptyView [] lastQualified utc now check gpu =
        (fun pool => { check with pool := pool }) <$> blockCard check.pool none gpu := rfl
    rw [List.foldlM_cons, hcard] at h
    by_cases hslot : gpu.index.toNat < check.pool.availableVramMb.length
    · obtain ⟨pool, hblock, hsame, hflags⟩ : ∃ pool, blockCard check.pool none gpu = .ok pool ∧
          pool.availableVramMb = check.pool.availableVramMb ∧
          pool.blocked.length = check.pool.blocked.length :=
        ⟨_, blockCard_eq_ok.2 ⟨hlen ▸ hslot, _, List.getElem?_eq_getElem hslot, rfl⟩, rfl,
          List.length_set⟩
      rw [hblock] at h
      have hrest := @ih { check with pool := pool } (by rw [hflags, hlen, hsame]) h
      rw [hsame] at hrest
      exact List.forall_mem_cons.2 ⟨hslot, hrest⟩
    · -- the first read of the card is out of range
      have hindex : Exec.index check.pool.availableVramMb gpu.index.toNat =
          .error .indexOutOfBounds := by
        simp [Exec.index, List.getElem?_eq_none (Nat.le_of_not_lt hslot)]
      have hpanic := h .indexOutOfBounds (by rw [blockCard, hindex]; rfl)
      cases hpanic

theorem Works.indexed {resources : SystemResources} (h : Works resources) :
    resources.Indexed := by
  -- one check of the fresh pool
  have hrun := h.runs [.check 0 emptyView [] [] 0 0]
  have hnode : checkNode 0 emptyView [] 0 0 ⟨.new resources, [], []⟩ =
      resources.gpus.foldlM (checkCard 0 emptyView [] [] 0 0) ⟨.new resources, [], []⟩ := rfl
  have hcheck : (resources.gpus.foldlM (checkCard 0 emptyView [] [] 0 0)
      ⟨.new resources, [], []⟩).OnlyOverflows := fun panic hpanic => by
    rw [List.foldlM_cons, PoolState.operate, PoolState.fresh, hnode, hpanic] at hrun
    exact hrun panic rfl
  have hslots := inSlots_of_check (by simp [ResourcePool.new]) hcheck
  -- the position an index names is the card's own
  refine List.ext_getElem (by simp) fun p hp _ => ?_
  rw [List.length_map] at hp
  rw [List.getElem_map, List.getElem_range]
  have hlt : resources.gpus[p].index.toNat < resources.gpus.length := by
    simpa [ResourcePool.new] using hslots _ (List.getElem_mem hp)
  by_contra hne
  exact (h.own p _ _ _ (List.getElem?_eq_getElem hp) (List.getElem?_eq_getElem hlt)
    (Ne.symm hne)).1 rfl

theorem SystemResources.Indexed.works {resources : SystemResources} (h : resources.Indexed) :
    Works resources where
  runs ops := Exec.onlyOverflows_foldlM (P := SlotsKept resources)
    (fun _ op _ hkept => hkept.operate h op) (slotsKept_fresh resources)
  own p q card other hp hq hne := by
    rw [h.index_eq hp, h.index_eq hq]
    exact ⟨hne, hne⟩
  free gpu hgpu hvram := by
    have hself := h.getElem?_index hgpu
    have hlt := (List.getElem?_eq_some_iff.1 hself).1
    refine ResourcePool.admits_iff.2 ⟨hvram, ?_, ?_, UInt64.zero_le⟩
    · simp [ResourcePool.new, hself]
    · simp [ResourcePool.new, hlt]

/-- **Which inventories work.**  A declared inventory works exactly when every card's index is its
position, and the discovered one exactly when no device was left out before one that answers. -/
theorem works_iff_indexed (declared : SystemResources) (cpus : UInt32) (totalMemory : UInt64)
    (nvml : Option Nvml) :
    (Works declared ↔ declared.Indexed) ∧
      (Works (discover cpus totalMemory nvml) ↔ Gapless nvml) := by
  have hiff : ∀ resources : SystemResources, Works resources ↔ resources.Indexed :=
    fun _ => ⟨Works.indexed, SystemResources.Indexed.works⟩
  exact ⟨hiff declared, (hiff _).trans (discover_indexed cpus totalMemory nvml)⟩

/-- Two 24 GB devices, and the first does not answer. -/
def lateDevice : Nvml where
  deviceCount := some 2
  deviceByIndex i := if i = 1 then some ⟨some "fake", some 25769803776, some "GPU-1"⟩ else none

/-- The one card found has index 1 and the pool one slot: the first job that asks for a card stops
the scheduler. -/
theorem lateDevice_panics :
    discoverGpus (some lateDevice) = [⟨1, "fake", 24576, "GPU-1"⟩] ∧
      [InventoryOp.pool (.tryReserve { gpu := 1 })].foldlM PoolState.operate
        (PoolState.fresh (discover 8 17179869184 (some lateDevice))) =
          .error .indexOutOfBounds ∧
      ¬ Works (discover 8 17179869184 (some lateDevice)) := by
  have hpanic : [InventoryOp.pool (.tryReserve { gpu := 1 })].foldlM PoolState.operate
      (PoolState.fresh (discover 8 17179869184 (some lateDevice))) =
        .error .indexOutOfBounds := by decide
  exact ⟨by decide, hpanic, fun h => Panic.noConfusion (h.runs _ _ hpanic)⟩

end Roster
