import Roster.Resource.Books
import Mathlib.Algebra.Order.BigOperators.Group.List
import Mathlib.Algebra.Order.Sub.Basic
import Mathlib.Algebra.Order.Sub.Prod

/-!
# Booking what an earlier life of the controller left running

After a restart the allocations of running jobs are booked on pools built from what the nodes
report now.  `book` cannot refuse: it saturates at zero and skips the slots it does not find
(`free_book`), while `release` later adds the full amounts back and indexes directly.  The two stay
inverse exactly when the saved allocations fit the new inventory (`takenBack_sound_iff`); a node
that came back smaller is oversold, or its pool panics (`shrunkNode_oversold`).
-/

namespace Roster

namespace ResourcePool

/-! ### What booking does to the amounts -/

theorem satSub32_toNat (a b : UInt32) : (satSub32 a b).toNat = a.toNat - b.toNat := by
  unfold satSub32
  split
  · next h => exact UInt32.toNat_sub_of_le _ _ h
  · next h =>
    rw [UInt32.le_iff_toNat_le] at h
    rw [UInt32.toNat_zero]
    omega

theorem satSub64_toNat (a b : UInt64) : (satSub64 a b).toNat = a.toNat - b.toNat := by
  unfold satSub64
  split
  · next h => exact UInt64.toNat_sub_of_le _ _ h
  · next h =>
    rw [UInt64.le_iff_toNat_le] at h
    rw [UInt64.toNat_zero]
    omega

theorem length_bookCard (slots : List UInt64) (card : GpuAllocation) :
    (bookCard slots card).length = slots.length := by simp [bookCard]

theorem slotAmount_bookCard (slots : List UInt64) (card : GpuAllocation) (i : ℕ) :
    slotAmount (bookCard slots card) i =
      slotAmount slots i - (if card.index.toNat = i then card.vramMb.toNat else 0) := by
  unfold slotAmount bookCard
  by_cases hi : i < slots.length
  · by_cases hci : card.index.toNat = i
    · simp [hi, hci, satSub64_toNat]
    · simp [hci]
  · rw [Nat.not_lt] at hi
    simp [List.getElem?_modify, List.getElem?_eq_none hi]

theorem length_foldl_bookCard (cards : List GpuAllocation) (slots : List UInt64) :
    (cards.foldl bookCard slots).length = slots.length := by
  induction cards generalizing slots with
  | nil => rfl
  | cons card cards ih => rw [List.foldl_cons, ih, length_bookCard]

theorem slotAmount_foldl_bookCard (cards : List GpuAllocation) (slots : List UInt64) (i : ℕ) :
    slotAmount (cards.foldl bookCard slots) i = slotAmount slots i - booked i cards := by
  induction cards generalizing slots with
  | nil => rfl
  | cons card cards ih => rw [List.foldl_cons, ih, slotAmount_bookCard, booked, Nat.sub_sub]

theorem alike_book (pool : ResourcePool) (alloc : Allocation) : Alike pool (pool.book alloc) :=
  ⟨rfl, rfl, length_foldl_bookCard _ _⟩

/-- Booking subtracts what it can. -/
theorem free_book (pool : ResourcePool) (alloc : Allocation) :
    (pool.book alloc).free = pool.free - alloc.amount := by
  funext r
  cases r with
  | cpu => exact satSub32_toNat _ _
  | memory => exact satSub64_toNat _ _
  | vram i => exact slotAmount_foldl_bookCard _ _ _

/-- Book the saved allocations in turn, as `take_back_runs` does on one node's pool. -/
def bookAll (pool : ResourcePool) (saved : List Allocation) : ResourcePool := saved.foldl book pool

theorem alike_bookAll (saved : List Allocation) (pool : ResourcePool) :
    Alike pool (pool.bookAll saved) := by
  induction saved generalizing pool with
  | nil => exact .refl pool
  | cons alloc saved ih => exact (alike_book pool alloc).trans (ih (pool.book alloc))

theorem free_bookAll (saved : List Allocation) (pool : ResourcePool) :
    (pool.bookAll saved).free = pool.free - (saved.map Allocation.amount).sum := by
  induction saved generalizing pool with
  | nil => exact (tsub_zero _).symm
  | cons alloc saved ih =>
    have hcons : pool.bookAll (alloc :: saved) = (pool.book alloc).bookAll saved := rfl
    rw [hcons, ih, free_book, List.map_cons, List.sum_cons, tsub_tsub]

/-- What is free never exceeds the inventory: in each slot, and of each card. -/
def WithinTotals (pool : ResourcePool) : Prop :=
  pool.free ≤ pool.total.amount ∧
    ∀ gpu ∈ pool.total.gpus, pool.free (.vram gpu.index.toNat) ≤ gpu.vramMb.toNat

end ResourcePool

theorem Books.withinTotals {pool : ResourcePool} {held : Multiset Allocation}
    (h : Books pool held) : pool.WithinTotals :=
  ⟨h.balanced.free_le, fun _ hgpu => h.slot_le hgpu⟩

namespace PoolState

open ResourcePool

/-- A pool after the restart, with the saved allocations out. -/
def takenBack (resources : SystemResources) (saved : List Allocation) : PoolState :=
  ⟨(ResourcePool.new resources).bookAll saved, saved⟩

/-- Whatever is placed and given back after the restart, nothing panics and the pool never has
more free than its node has. -/
def Sound (resources : SystemResources) (saved : List Allocation) : Prop :=
  ∀ ops : List PoolOp, (∀ op ∈ ops, op.keepsFlags = true) →
    ∃ st, (takenBack resources saved).run ops = .ok st ∧ st.pool.WithinTotals

/-- The saved allocations fit the inventory the node reports now. -/
structure Fits (resources : SystemResources) (saved : List Allocation) : Prop where
  numbered : resources.Numbered
  amounts : (saved.map Allocation.amount).sum ≤ resources.amount
  inSlots : ∀ alloc ∈ saved, alloc.InSlots resources.gpus.length

/-! ### Allocations that fit are booked exactly -/

theorem Fits.books {resources : SystemResources} {saved : List Allocation}
    (h : Fits resources saved) :
    Books (takenBack resources saved).pool (takenBack resources saved).out := by
  have halike := alike_bookAll saved (.new resources)
  have htotal : (takenBack resources saved).pool.total = resources := halike.total
  constructor
  · rw [htotal]; exact h.numbered
  · rw [htotal]; exact halike.slots.trans (List.length_map _)
  · rw [htotal]; exact (congrArg List.length halike.blocked).trans List.length_replicate
  · rw [htotal]
    unfold Ledger.Balanced
    simp only [takenBack, Multiset.map_coe, Multiset.sum_coe, free_bookAll, free_new]
    exact tsub_add_cancel_of_le h.amounts
  · rw [htotal]; exact h.inSlots

theorem Fits.sound {resources : SystemResources} {saved : List Allocation}
    (h : Fits resources saved) : Sound resources saved := fun ops _ => by
  obtain ⟨st, hrun, -, hbooks⟩ := run_books h.books ops
  exact ⟨st, hrun, hbooks.withinTotals⟩

/-! ### Allocations that do not fit -/

/-- Give back everything that is out. -/
def releaseAll (n : ℕ) : List PoolOp := List.replicate n (.release 0)

theorem keepsFlags_releaseAll {n : ℕ} {op : PoolOp} (h : op ∈ releaseAll n) :
    op.keepsFlags = true := by
  rw [List.eq_of_mem_replicate h]; rfl

/-- Giving everything back adds the full amounts, and every card had a slot. -/
theorem run_releaseAll {out : List Allocation} {pool : ResourcePool} {st : PoolState}
    (h : run ⟨pool, out⟩ (releaseAll out.length) = .ok st) :
    st.out = [] ∧ Alike pool st.pool ∧
      st.pool.free = pool.free + (out.map Allocation.amount).sum ∧
      ∀ alloc ∈ out, alloc.InSlots pool.availableVramMb.length := by
  induction out generalizing pool with
  | nil =>
    obtain rfl := Except.ok.inj h
    exact ⟨rfl, .refl _, by simp, by simp⟩
  | cons alloc out ih =>
    simp only [releaseAll, List.length_cons, List.replicate_succ, run_cons, step,
      List.getElem?_cons_zero, List.eraseIdx_cons_zero, Exec.bind_eq_ok, Exec.pure_eq_ok] at h ih
    obtain ⟨-, ⟨pool', hok, rfl⟩, hrest⟩ := h
    obtain ⟨hin, halike, hfree⟩ := release_eq_ok.1 hok
    obtain ⟨hout, halike', hfree', hin'⟩ := ih hrest
    refine ⟨hout, halike.trans halike', ?_, List.forall_mem_cons.2 ⟨hin, ?_⟩⟩
    · rw [hfree', hfree, List.map_cons, List.sum_cons, add_assoc]
    · simpa only [halike.slots] using hin'

/-- With a sound list, giving everything back leaves the pool fresh. -/
theorem Sound.released {resources : SystemResources} {saved : List Allocation}
    (h : Sound resources saved) :
    (takenBack resources saved).run (releaseAll saved.length) = .ok (fresh resources) ∧
      (ResourcePool.new resources).WithinTotals ∧
      (saved.map Allocation.amount).sum ≤ resources.amount ∧
      ∀ alloc ∈ saved, alloc.InSlots resources.gpus.length := by
  obtain ⟨st, hrun, hwithin⟩ := h (releaseAll saved.length) fun _ => keepsFlags_releaseAll
  obtain ⟨hout, halike, hfree, hin⟩ := run_releaseAll hrun
  have hbook := alike_bookAll saved (.new resources)
  have hnew : Alike (ResourcePool.new resources) st.pool := hbook.trans halike
  have hsum : (saved.map Allocation.amount).sum ≤ resources.amount := by
    have hle := hwithin.1
    rw [hfree, hnew.total] at hle
    exact le_add_self.trans hle
  have heq : st.pool = .new resources := by
    refine hnew.eq_of_free_eq (hfree.trans ?_)
    rw [free_bookAll, free_new]
    exact tsub_add_cancel_of_le hsum
  have hst : st = fresh resources := by
    obtain ⟨pool, out⟩ := st
    exact congrArg₂ PoolState.mk heq hout
  refine ⟨hst ▸ hrun, heq ▸ hwithin, hsum, ?_⟩
  rw [hbook.slots] at hin
  simpa only [ResourcePool.new, List.length_map] using hin

/-- So every history from a fresh pool runs through. -/
theorem Sound.fresh_ok {resources : SystemResources} {saved : List Allocation}
    (h : Sound resources saved) (spec : ResourceSpec) :
    ∃ r, (ResourcePool.new resources).tryReserve spec = .ok r := by
  obtain ⟨st, hrun, -⟩ := h (releaseAll saved.length ++ [.tryReserve spec]) fun op hop => by
    rcases List.mem_append.1 hop with hop | hop
    · exact keepsFlags_releaseAll hop
    · rw [List.mem_singleton.1 hop]; rfl
  rw [run_append, h.released.1, Exec.ok_bind, run_cons] at hrun
  simp only [step, Exec.bind_eq_ok, run_nil] at hrun
  obtain ⟨-, ⟨r, hr, -⟩, -⟩ := hrun
  exact ⟨r, hr⟩

end PoolState

namespace ResourcePool

/-- A request for as many cards as there are looks at every one of them. -/
theorem selectGpus_inRange {pool : ResourcePool} {share : UInt64} {n : ℕ} {gpus : List GpuInfo}
    {selected : List GpuAllocation} (h : pool.selectGpus share n gpus = .ok selected)
    (hn : gpus.length ≤ n) :
    ∀ gpu ∈ gpus, gpu.vramMb ≠ 0 → gpu.index.toNat < pool.availableVramMb.length := by
  fun_induction selectGpus generalizing selected with
  | case1 => simp [List.length_eq_zero_iff.1 (Nat.le_zero.1 hn)]
  | case2 => simp
  | case3 n gpu gpus hzero ih =>
    exact List.forall_mem_cons.2 ⟨fun hne => absurd hzero hne,
      ih h ((Nat.le_succ _).trans hn)⟩
  | case4 n gpu gpus hzero ih₁ ih₂ =>
    simp only [Exec.bind_eq_ok, Exec.index_eq_ok] at h
    obtain ⟨free, hfree, h⟩ := h
    have hlt := (List.getElem?_eq_some_iff.1 hfree).1
    refine List.forall_mem_cons.2 ⟨fun _ => hlt, ?_⟩
    have hrest : gpus.length ≤ n + 1 := (Nat.le_succ _).trans hn
    split at h
    · exact ih₁ h hrest
    · simp only [Exec.bind_eq_ok] at h
      obtain ⟨blocked, -, h⟩ := h
      split at h
      · exact ih₁ h hrest
      · simp only [Exec.bind_eq_ok] at h
        obtain ⟨rest, hsel, -⟩ := h
        exact ih₂ hsel (Nat.le_of_succ_le_succ hn)

theorem le_booked {gpus : List GpuInfo} {gpu : GpuInfo} (h : gpu ∈ gpus) :
    gpu.vramMb.toNat ≤ booked gpu.index.toNat (gpus.map GpuInfo.whole) := by
  induction gpus with
  | nil => cases h
  | cons g gpus ih =>
    simp only [List.map_cons, booked, GpuInfo.whole]
    rcases List.mem_cons.1 h with rfl | hmem
    · simp
    · exact (ih hmem).trans (Nat.le_add_left _ _)

/-- Whole cards that fit their slots together are on distinct slots. -/
theorem nodup_of_booked_le (slots : List UInt64) {gpus : List GpuInfo}
    (h : ∀ gpu ∈ gpus, gpu.vramMb ≠ 0 ∧ slots[gpu.index.toNat]? = some gpu.vramMb)
    (hle : ∀ i, booked i (gpus.map GpuInfo.whole) ≤ slotAmount slots i) :
    (gpus.map fun gpu => gpu.index.toNat).Nodup := by
  induction gpus with
  | nil => exact List.nodup_nil
  | cons gpu gpus ih =>
    obtain ⟨⟨hne, hslot⟩, hrest⟩ := List.forall_mem_cons.1 h
    simp only [List.map_cons, booked] at hle
    refine List.nodup_cons.2 ⟨fun hmem => ?_, ih hrest fun i => le_of_add_le_right (hle i)⟩
    obtain ⟨g, hg, hgi⟩ := List.mem_map.1 hmem
    have hpos : 0 < g.vramMb.toNat :=
      Nat.pos_of_ne_zero fun h0 => (hrest g hg).1 (UInt64.toNat_inj.1 h0)
    have hge := le_booked hg
    have hi := hle gpu.index.toNat
    rw [slotAmount_of_getElem? hslot] at hi
    simp only [hgi, GpuInfo.whole, if_true] at hge hi
    omega

/-- When requests for any number of cards run through, the inventory can be indexed. -/
theorem numbered_of_tryReserve_ok {resources : SystemResources}
    (hlen : resources.gpus.length < 2 ^ 32)
    (hleast : (ResourcePool.new resources).WithinTotals)
    (hok : ∀ spec, ∃ r, (ResourcePool.new resources).tryReserve spec = .ok r) :
    resources.Numbered := by
  have hcards : ∀ n : ℕ, n ≠ 0 → n < 2 ^ 32 → ∃ selected,
      (ResourcePool.new resources).selectGpus 0 n resources.gpus = .ok selected ∧
        (selected.length = n → ∃ slots,
          takeCards (ResourcePool.new resources).availableVramMb selected = .ok slots) := by
    intro n hzero hn
    obtain ⟨r, hr⟩ := hok { cpu := 0, memoryMb := 0, gpu := UInt32.ofNat n, vramMb := 0 }
    have hgpu : (UInt32.ofNat n).toNat = n := UInt32.toNat_ofNat_of_lt' hn
    have hne : UInt32.ofNat n ≠ 0 := fun h0 => hzero (by rw [← hgpu, h0]; rfl)
    have hshare : ResourceSpec.vramPerGpu
        { cpu := 0, memoryMb := 0, gpu := UInt32.ofNat n, vramMb := 0 } = 0 := by
      simp [ResourceSpec.vramPerGpu, ResourceSpec.divCeil]
    simp only [tryReserve, UInt32.not_lt_zero, UInt64.not_lt_zero, if_false, hne, tryFindGpus,
      hshare, hgpu, Exec.bind_eq_ok, Exec.pure_eq_ok] at hr
    obtain ⟨found, ⟨selected, hsel, rfl⟩, hr⟩ := hr
    refine ⟨selected, hsel, fun hcount => ?_⟩
    simp only [if_pos hcount, Exec.bind_eq_ok] at hr
    obtain ⟨-, -, -, -, slots, hslots, -⟩ := hr
    exact ⟨slots, hslots⟩
  have hrange : ∀ gpu ∈ resources.gpus, gpu.vramMb ≠ 0 →
      gpu.index.toNat < resources.gpus.length := by
    intro gpu hgpu
    obtain ⟨selected, hsel, -⟩ := hcards (2 ^ 32 - 1) (by decide) (by decide)
    have hin := selectGpus_inRange hsel (by omega) gpu hgpu
    simpa [ResourcePool.new] using hin
  refine ⟨hrange, fun gpu hgpu => free_new resources ▸ hleast.2 gpu hgpu, ?_⟩
  -- ask for all the cards that are free at once: taking them all must not underflow
  by_cases hnone : resources.gpus.filter (ResourcePool.new resources).unbooked = []
  · simp [Distinct, show (ResourcePool.new resources).total = resources from rfl, hnone]
  have hfilter : resources.gpus.filter ((ResourcePool.new resources).admits 0) =
      resources.gpus.filter (ResourcePool.new resources).unbooked := by
    refine List.filter_congr fun gpu hgpu => Bool.eq_iff_iff.2 ?_
    rw [admits_iff]
    simp only [unbooked, Bool.and_eq_true, decide_eq_true_eq, UInt64.zero_le, and_true]
    constructor
    · rintro ⟨hne, hslot, -⟩; exact ⟨hne, hslot⟩
    · rintro ⟨hne, hslot⟩
      exact ⟨hne, hslot, by simp [ResourcePool.new, hrange gpu hgpu hne]⟩
  obtain ⟨selected, hsel, htake⟩ := hcards
    (resources.gpus.filter (ResourcePool.new resources).unbooked).length
    (fun h0 => hnone (List.length_eq_zero_iff.1 h0))
    ((List.length_filter_le _ _).trans_lt hlen)
  have hall := selectGpus_eq_ok hsel
  rw [hfilter, List.take_length] at hall
  obtain ⟨slots, hslots⟩ := htake (by rw [hall, List.length_map])
  obtain ⟨-, -, hamount⟩ := takeCards_eq_ok.1 hslots
  refine nodup_of_booked_le (ResourcePool.new resources).availableVramMb ?_ fun i => ?_
  · intro gpu hgpu
    simpa [unbooked] using (List.mem_filter.1 hgpu).2
  · rw [← hamount i, hall]
    exact Nat.le_add_left _ _

end ResourcePool

namespace PoolState

open ResourcePool

/-- A node that had 8 cores when the job was placed and has 4 after the restart. -/
def shrunkNode : SystemResources := ⟨4, 8192, []⟩

/-- The job that was placed then. -/
def biggerJob : Allocation := ⟨8, 512, []⟩

/-- Once the job ends the pool hands out 8 cores of a node that has 4. -/
theorem shrunkNode_oversold : ¬ Sound shrunkNode [biggerJob] := by
  intro h
  obtain ⟨st, hrun, hwithin, -⟩ := h [.release 0] (by decide)
  have hst : st = ⟨⟨shrunkNode, 8, 8192, [], []⟩, []⟩ :=
    (Except.ok.inj (hrun.symm.trans (by decide)))
  subst hst
  exact absurd (hwithin .cpu) (by decide)

/-- **Take-back accounting.**  If the saved allocations fit the inventory reported now, no history
panics or frees more than there is.  Nothing weaker will do: on a node with fewer than `2 ^ 32`
cards every sound list fits. -/
theorem takenBack_sound_iff (resources : SystemResources) (saved : List Allocation) :
    (Fits resources saved → Sound resources saved) ∧
      (resources.gpus.length < 2 ^ 32 → Sound resources saved → Fits resources saved) := by
  refine ⟨Fits.sound, fun hlen h => ?_⟩
  obtain ⟨-, hwithin, hsum, hin⟩ := h.released
  exact ⟨numbered_of_tryReserve_ok hlen hwithin h.fresh_ok, hsum, hin⟩

/-- A node with one card, and a job that was running on it. -/
def sameNode : SystemResources := ⟨4, 8192, [⟨0, "fake", 24576, ""⟩]⟩

/-- On a node that came back as it was, the job's allocation is booked soundly. -/
theorem sameNode_sound : Sound sameNode [⟨2, 512, [⟨0, 24576⟩]⟩] := by
  refine (takenBack_sound_iff _ _).1 ⟨⟨by decide, by decide, ?_⟩, fun r => ?_, by decide⟩
  · exact List.nodup_singleton _
  match r with
  | .cpu => decide
  | .memory => decide
  | .vram 0 => decide
  | .vram (i + 1) => exact Nat.zero_le _

end PoolState

end Roster
