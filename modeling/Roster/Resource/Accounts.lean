import Roster.Resource.Books
import Mathlib.Data.Multiset.Count

/-!
# Whole cards, never shared

On an inventory numbered `0 … n-1` an allocation is made of whole cards of the inventory
(`Allocation.Whole`), so the books of a slot are those of an indivisible resource: a card with
VRAM is free and in no allocation, or booked and in exactly one (`Accounts.card`), over histories
of any length (`PoolState.histories_exclusive`).
-/

namespace Roster

/-- The cards are numbered `0 … n-1` in order. -/
def SystemResources.Indexed (resources : SystemResources) : Prop :=
  resources.gpus.map (fun gpu => gpu.index.toNat) = List.range resources.gpus.length

instance (resources : SystemResources) : Decidable resources.Indexed :=
  inferInstanceAs (Decidable (_ = _))

namespace SystemResources.Indexed

variable {resources : SystemResources} (h : resources.Indexed)
include h

theorem index_eq {i : ℕ} {gpu : GpuInfo} (hi : resources.gpus[i]? = some gpu) :
    gpu.index.toNat = i := by
  have hmap : (resources.gpus.map fun gpu => gpu.index.toNat)[i]? = some gpu.index.toNat := by
    simp [hi]
  obtain ⟨hlt, -⟩ := List.getElem?_eq_some_iff.1 hi
  rw [h, List.getElem?_range hlt] at hmap
  exact (Option.some.inj hmap).symm

theorem getElem?_index {gpu : GpuInfo} (hgpu : gpu ∈ resources.gpus) :
    resources.gpus[gpu.index.toNat]? = some gpu := by
  obtain ⟨i, hi⟩ := List.mem_iff_getElem?.1 hgpu
  rwa [h.index_eq hi]

theorem nodup : (resources.gpus.map fun gpu => gpu.index.toNat).Nodup := by
  rw [h]; exact List.nodup_range

end SystemResources.Indexed

/-! ### Whole cards -/

/-- The allocation has the card of slot `i`. -/
def Allocation.holds (alloc : Allocation) (i : ℕ) : Bool :=
  alloc.gpus.any fun card => decide (card.index.toNat = i)

/-- The allocation is made of whole, distinct cards of the inventory. -/
structure Allocation.Whole (alloc : Allocation) (resources : SystemResources) : Prop where
  nodup : (alloc.gpus.map fun card => card.index.toNat).Nodup
  card : ∀ card ∈ alloc.gpus, card.vramMb ≠ 0 ∧
    ∃ gpu, resources.gpus[card.index.toNat]? = some gpu ∧ gpu.vramMb = card.vramMb

/-- Distinct cards book a slot at most once. -/
theorem booked_of_nodup {cards : List GpuAllocation} {i : ℕ} {vram : UInt64}
    (hnodup : (cards.map fun card => card.index.toNat).Nodup)
    (h : ∀ card ∈ cards, card.index.toNat = i → card.vramMb = vram) :
    booked i cards =
      if cards.any fun card => decide (card.index.toNat = i) then vram.toNat else 0 := by
  induction cards with
  | nil => rfl
  | cons card cards ih =>
    rw [List.map_cons, List.nodup_cons] at hnodup
    rw [List.forall_mem_cons] at h
    simp only [booked, List.any_cons]
    by_cases hci : card.index.toNat = i
    · have hrest : booked i cards = 0 := ResourcePool.booked_eq_zero fun c hc hcc =>
        hnodup.1 (List.mem_map.2 ⟨c, hc, hcc.trans hci.symm⟩)
      simp [hci, hrest, h.1 hci]
    · simpa [hci] using ih hnodup.2 h.2

/-- An allocation of whole cards holds all of a slot or nothing of it. -/
theorem Allocation.Whole.amount_vram {alloc : Allocation} {resources : SystemResources}
    (h : alloc.Whole resources) {i : ℕ} {gpu : GpuInfo} (hi : resources.gpus[i]? = some gpu) :
    alloc.amount (.vram i) = if alloc.holds i then gpu.vramMb.toNat else 0 := by
  refine booked_of_nodup h.nodup fun card hcard hci => ?_
  obtain ⟨-, g, hg, hvram⟩ := h.card card hcard
  rw [hci, hi, Option.some.injEq] at hg
  rw [← hvram, hg]

theorem SystemResources.amount_vram {resources : SystemResources} {i : ℕ} {gpu : GpuInfo}
    (hi : resources.gpus[i]? = some gpu) : resources.amount (.vram i) = gpu.vramMb.toNat := by
  simp [SystemResources.amount, slotAmount, hi]

/-- Cards numbered by position are what a pool can index. -/
theorem SystemResources.Indexed.numbered {resources : SystemResources} (h : resources.Indexed) :
    resources.Numbered where
  inRange _ hgpu _ := (List.getElem?_eq_some_iff.1 (h.getElem?_index hgpu)).1
  least _ hgpu := (SystemResources.amount_vram (h.getElem?_index hgpu)).le
  distinct := h.nodup.sublist (List.Sublist.map _ List.filter_sublist)

/-! ### The invariant -/

/-- The pool's books are in order, and what is out is made of whole cards. -/
structure Accounts (pool : ResourcePool) (held : Multiset Allocation) : Prop extends
    Books pool held where
  indexed : pool.total.Indexed
  whole : ∀ alloc ∈ held, alloc.Whole pool.total

theorem accounts_new {resources : SystemResources} (h : resources.Indexed) :
    Accounts (.new resources) 0 where
  toBooks := .new h.numbered
  indexed := h
  whole := by simp

namespace Accounts

variable {pool pool' : ResourcePool} {held : Multiset Allocation} {alloc : Allocation}

/-- A reservation takes whole cards. -/
theorem reserved (h : Accounts pool held) {gpus : List GpuInfo}
    (hres : ResourcePool.Reserved pool gpus alloc pool') : Accounts pool' (alloc ::ₘ held) where
  toBooks := h.toBooks.reserved hres
  indexed := hres.alike.total ▸ h.indexed
  whole := by
    rw [hres.alike.total]
    refine Multiset.forall_mem_cons.2 ⟨⟨?_, fun card hcard => ?_⟩, h.whole⟩
    · rw [← hres.cards, List.map_map]
      exact h.indexed.nodup.sublist (hres.sublist.map _)
    · obtain ⟨gpu, hgpu, rfl⟩ := List.mem_map.1 (hres.cards ▸ hcard)
      exact ⟨(hres.unbooked gpu hgpu).1, gpu,
        h.indexed.getElem?_index (hres.sublist.subset hgpu), rfl⟩

theorem released (h : Accounts pool (alloc ::ₘ held)) (hok : pool.release alloc = .ok pool') :
    Accounts pool' held where
  toBooks := h.toBooks.released hok
  indexed := (ResourcePool.release_eq_ok.1 hok).2.1.total ▸ h.indexed
  whole := by
    rw [(ResourcePool.release_eq_ok.1 hok).2.1.total]
    exact (Multiset.forall_mem_cons.1 h.whole).2

theorem setBlocked (h : Accounts pool held) {blocked : List Bool}
    (hlen : blocked.length = pool.blocked.length) :
    Accounts { pool with blocked := blocked } held :=
  ⟨h.toBooks.setBlocked hlen, h.indexed, h.whole⟩

/-- **Whole cards, never shared.**  A card with VRAM is free and in no allocation, or booked and
in exactly one. -/
theorem card (h : Accounts pool held) {i : ℕ} {gpu : GpuInfo}
    (hi : pool.total.gpus[i]? = some gpu) (hvram : gpu.vramMb ≠ 0) :
    (pool.availableVramMb[i]? = some gpu.vramMb ∧ held.countP (·.holds i) = 0) ∨
      (pool.availableVramMb[i]? = some 0 ∧ held.countP (·.holds i) = 1) := by
  have hpos : 0 < gpu.vramMb.toNat := Nat.pos_of_ne_zero fun h0 => hvram (UInt64.toNat_inj.1 h0)
  have hlt : i < pool.availableVramMb.length := h.slots ▸ (List.getElem?_eq_some_iff.1 hi).1
  -- the ledger of this one slot
  have hslot : Ledger.Balanced gpu.vramMb.toNat pool.availableVramMb[i].toNat
      (held.map fun alloc => alloc.amount (.vram i)) := by
    have hbal := h.balanced.coord (.vram i)
    rw [Multiset.map_map, SystemResources.amount_vram hi] at hbal
    simpa [ResourcePool.free, slotAmount, hlt] using hbal
  have hamount : ∀ alloc ∈ held, alloc.amount (.vram i) =
      if alloc.holds i then gpu.vramMb.toNat else 0 :=
    fun alloc hmem => (h.whole alloc hmem).amount_vram hi
  have hcount : (held.map fun alloc => alloc.amount (.vram i)).count gpu.vramMb.toNat =
      held.countP (·.holds i) := by
    rw [Multiset.count_map, ← Multiset.countP_eq_card_filter]
    refine Multiset.countP_congr rfl fun alloc hmem => ?_
    rw [hamount alloc hmem]
    cases alloc.holds i
    · simpa using hpos.ne'
    · simp
  have hunit := Ledger.unit_claims hslot hpos fun a ha => by
    obtain ⟨alloc, hmem, rfl⟩ := Multiset.mem_map.1 ha
    rw [hamount alloc hmem]
    split <;> simp
  rw [hcount] at hunit
  rw [List.getElem?_eq_getElem hlt]
  rcases hunit with ⟨hfree, hc⟩ | ⟨hfree, hc⟩
  · exact .inl ⟨congrArg some (UInt64.toNat_inj.1 hfree), hc⟩
  · exact .inr ⟨congrArg some (UInt64.toNat_inj.1 hfree), hc⟩

end Accounts

/-! ### Histories -/

namespace PoolState

theorem Moved.accounts {st st' : PoolState} (h : Moved st st') (ha : Accounts st.pool st.out) :
    Accounts st'.pool st'.out := by
  cases h with
  | same => exact ha
  | reserved pool alloc gpus hres => exact ha.reserved hres
  | released pool alloc rest hperm hok =>
    rw [Multiset.coe_eq_coe.2 hperm, ← Multiset.cons_coe] at ha
    exact ha.released hok
  | flagged blocked hlen => exact ha.setBlocked hlen

theorem run_accounts {st : PoolState} (h : Accounts st.pool st.out) (ops : List PoolOp) :
    ∃ st', st.run ops = .ok st' ∧ st'.pool.total = st.pool.total ∧
      Accounts st'.pool st'.out :=
  run_invariant (fun _ ha => ha.toBooks) (fun _ _ ha hmove => hmove.accounts ha) h ops

/-- **GPU exclusivity.**  On an inventory numbered `0 … n-1` no history of reservations, releases
and changes of the blocked cards panics; what is free and what is out add up to the inventory, and
a card with VRAM is in at most one allocation, in exactly one iff its free VRAM is 0. -/
theorem histories_exclusive (resources : SystemResources) (h : resources.Indexed)
    (ops : List PoolOp) :
    ∃ st, (fresh resources).run ops = .ok st ∧ st.pool.total = resources ∧
      st.pool.availableCpu.toNat + (st.out.map fun alloc => alloc.cpu.toNat).sum =
        resources.cpuCores.toNat ∧
      st.pool.availableMemoryMb.toNat + (st.out.map fun alloc => alloc.memoryMb.toNat).sum =
        resources.memoryMb.toNat ∧
      (∀ i gpu, resources.gpus[i]? = some gpu →
        (st.pool.availableVramMb[i]? = some 0 ∨
          st.pool.availableVramMb[i]? = some gpu.vramMb) ∧
        (gpu.vramMb ≠ 0 → st.out.countP (·.holds i) ≤ 1 ∧
          (st.out.countP (·.holds i) = 1 ↔ st.pool.availableVramMb[i]? = some 0))) ∧
      (st.out = [] → st.pool.availableCpu = resources.cpuCores ∧
        st.pool.availableMemoryMb = resources.memoryMb ∧
        st.pool.availableVramMb = resources.gpus.map GpuInfo.vramMb) := by
  have hfresh : Accounts (fresh resources).pool (fresh resources).out := accounts_new h
  obtain ⟨st, hrun, htotal, hacc⟩ := run_accounts hfresh ops
  replace htotal : st.pool.total = resources := htotal
  subst htotal
  refine ⟨st, hrun, rfl, by simpa using hacc.cpu, by simpa using hacc.memory,
    fun i gpu hi => ?_, fun hout => ?_⟩
  · by_cases hvram : gpu.vramMb = 0
    · -- a card without VRAM has an empty slot, and nothing can book it
      refine ⟨.inl ?_, fun hne => absurd hvram hne⟩
      have hlt : i < st.pool.availableVramMb.length :=
        hacc.slots ▸ (List.getElem?_eq_some_iff.1 hi).1
      have hle := hacc.balanced.free_le (.vram i)
      rw [SystemResources.amount_vram hi, hvram] at hle
      rw [List.getElem?_eq_getElem hlt]
      refine congrArg some (UInt64.toNat_inj.1 ?_)
      simpa [ResourcePool.free, slotAmount, hlt] using hle
    -- a card with VRAM is free and in no allocation, or booked and in exactly one
    · have hcard := hacc.card hi hvram
      rw [Multiset.coe_countP] at hcard
      simp only [Bool.decide_eq_true] at hcard
      rcases hcard with ⟨hfree, hcount⟩ | ⟨hfree, hcount⟩
      · refine ⟨.inr hfree, fun _ => ⟨by omega, ?_⟩⟩
        rw [hfree, hcount]
        simpa using hvram
      · exact ⟨.inl hfree, fun _ => ⟨by omega, by simp [hfree, hcount]⟩⟩
  · rw [hout] at hacc
    have hnew := hacc.eq_new
    exact ⟨congrArg ResourcePool.availableCpu hnew, congrArg ResourcePool.availableMemoryMb hnew,
      congrArg ResourcePool.availableVramMb hnew⟩

/-- A node with a 24 GB card and a card that reports no VRAM. -/
def mixedNode : SystemResources := ⟨8, 16384, [⟨0, "fake", 24576, ""⟩, ⟨1, "fake", 0, ""⟩]⟩

/-- A history on that node: a job and a qualification ask for the card, and the job gives it back.
-/
theorem mixedNode_exclusive :
    ∃ st, (fresh mixedNode).run
        [.tryReserve { gpu := 1 }, .reserveCard 0, .release 0, .reserveCard 0] = .ok st ∧
      st.pool.total = mixedNode ∧ st.out.countP (·.holds 0) ≤ 1 := by
  obtain ⟨st, hrun, htotal, -, -, hcards, -⟩ := histories_exclusive mixedNode (by decide) _
  exact ⟨st, hrun, htotal, ((hcards 0 _ rfl).2 (by decide)).1⟩

end PoolState

end Roster
