import Roster.Resource.Amounts

/-!
# A pool and the allocations that are out

`Books pool held` says that a pool's books are in order against the multiset `held` of allocations
that are out: its inventory is one the pool can index (`SystemResources.Numbered`), and what is free
and what is out add up to the inventory.  Under it no operation panics (`Books.tryReserve`,
`Books.reserveCard`, `Books.release`) and every operation keeps it.

`PoolState` runs histories of operations on a pool together with the list of what it has handed
out; `PoolState.run_books` is the invariant over histories of any length.
-/

namespace Roster

/-- An inventory a pool can index: every card with VRAM has a slot, no slot starts with more than
its cards have, and no two cards with VRAM are both free when nothing is booked on their slot. -/
structure SystemResources.Numbered (resources : SystemResources) : Prop where
  inRange : ∀ gpu ∈ resources.gpus, gpu.vramMb ≠ 0 → gpu.index.toNat < resources.gpus.length
  least : ∀ gpu ∈ resources.gpus,
    resources.amount (.vram gpu.index.toNat) ≤ gpu.vramMb.toNat
  distinct : (ResourcePool.new resources).Distinct

/-- Every card of the allocation has one of the first `n` slots. -/
def Allocation.InSlots (alloc : Allocation) (n : ℕ) : Prop :=
  ∀ card ∈ alloc.gpus, card.index.toNat < n

instance (alloc : Allocation) (n : ℕ) : Decidable (alloc.InSlots n) :=
  inferInstanceAs (Decidable (∀ card ∈ alloc.gpus, card.index.toNat < n))

/-- The pool's books are in order against the allocations that are out. -/
structure Books (pool : ResourcePool) (held : Multiset Allocation) : Prop where
  numbered : pool.total.Numbered
  slots : pool.availableVramMb.length = pool.total.gpus.length
  flags : pool.blocked.length = pool.total.gpus.length
  balanced : Ledger.Balanced pool.total.amount pool.free (held.map Allocation.amount)
  inSlots : ∀ alloc ∈ held, alloc.InSlots pool.total.gpus.length

namespace Books

variable {pool pool' : ResourcePool} {held : Multiset Allocation} {alloc : Allocation}

theorem new {resources : SystemResources} (h : resources.Numbered) :
    Books (.new resources) 0 where
  numbered := h
  slots := by simp [ResourcePool.new]
  flags := by simp [ResourcePool.new]
  balanced := by
    rw [ResourcePool.free_new]
    exact Ledger.balanced_zero _
  inSlots := by simp

theorem inRange (h : Books pool held) : pool.InRange := fun gpu hgpu hne =>
  have hlt := h.numbered.inRange gpu hgpu hne
  ⟨h.slots ▸ hlt, h.flags ▸ hlt⟩

/-- A card's slot never holds more than the card has. -/
theorem slot_le (h : Books pool held) {gpu : GpuInfo} (hgpu : gpu ∈ pool.total.gpus) :
    pool.free (.vram gpu.index.toNat) ≤ gpu.vramMb.toNat :=
  (h.balanced.free_le _).trans (h.numbered.least gpu hgpu)

/-- A card that is free now was free when nothing was booked. -/
theorem unbooked_new (h : Books pool held) {gpu : GpuInfo} (hgpu : gpu ∈ pool.total.gpus)
    (hfree : pool.unbooked gpu = true) : (ResourcePool.new pool.total).unbooked gpu = true := by
  simp only [ResourcePool.unbooked, Bool.and_eq_true, decide_eq_true_eq] at hfree ⊢
  obtain ⟨hne, hslot⟩ := hfree
  have hlt : gpu.index.toNat < ((ResourcePool.new pool.total).availableVramMb).length := by
    simpa [ResourcePool.new] using h.numbered.inRange gpu hgpu hne
  refine ⟨hne, ?_⟩
  rw [List.getElem?_eq_getElem hlt]
  refine congrArg some (UInt64.toNat_inj.1 (le_antisymm ?_ ?_))
  · have hle := h.numbered.least gpu hgpu
    rw [← ResourcePool.free_new] at hle
    simpa [ResourcePool.free, slotAmount, hlt] using hle
  · have hle := h.balanced.free_le (.vram gpu.index.toNat)
    rw [← ResourcePool.free_new] at hle
    simp only [ResourcePool.free, slotAmount_of_getElem? hslot] at hle
    simpa [slotAmount, hlt] using hle

theorem distinct (h : Books pool held) : pool.Distinct := by
  refine h.numbered.distinct.sublist (List.Sublist.map _ ?_)
  have hfilter : (pool.total.gpus.filter (ResourcePool.new pool.total).unbooked).filter
      pool.unbooked = pool.total.gpus.filter pool.unbooked := by
    rw [List.filter_filter]
    refine List.filter_congr fun gpu hgpu => ?_
    cases hfree : pool.unbooked gpu
    · rfl
    · simp [h.unbooked_new hgpu hfree]
  rw [← hfilter]
  exact List.filter_sublist

/-- A reservation moves its allocation from the pool to the allocations that are out. -/
theorem reserved (h : Books pool held) {gpus : List GpuInfo}
    (hres : ResourcePool.Reserved pool gpus alloc pool') : Books pool' (alloc ::ₘ held) := by
  obtain ⟨halike, hfree, hsub, hcards, hunbooked⟩ := hres
  refine ⟨halike.total ▸ h.numbered, ?_, ?_, ?_, ?_⟩
  · rw [halike.slots, halike.total, h.slots]
  · rw [halike.blocked, halike.total, h.flags]
  · rw [Multiset.map_cons, halike.total]
    exact h.balanced.take hfree
  · rw [halike.total]
    refine Multiset.forall_mem_cons.2 ⟨fun card hcard => ?_, h.inSlots⟩
    obtain ⟨gpu, hgpu, rfl⟩ := List.mem_map.1 (hcards ▸ hcard)
    exact h.numbered.inRange gpu (hsub.subset hgpu) (hunbooked gpu hgpu).1

theorem tryReserve_ok (h : Books pool held) (spec : ResourceSpec) :
    ∃ found pool', pool.tryReserve spec = .ok (found, pool') :=
  have ⟨⟨found, pool'⟩, hok⟩ := ResourcePool.tryReserve_ok h.inRange h.distinct
  ⟨found, pool', hok⟩

theorem reserveCard_ok (h : Books pool held) (index : UInt32) :
    ∃ found pool', pool.reserveCard index = .ok (found, pool') :=
  have ⟨⟨found, pool'⟩, hok⟩ := ResourcePool.reserveCard_ok index h.inRange
  ⟨found, pool', hok⟩

/-- An allocation that is out can be given back. -/
theorem release_ok (h : Books pool (alloc ::ₘ held)) : ∃ pool', pool.release alloc = .ok pool' := by
  have hbal := h.balanced
  rw [Multiset.map_cons] at hbal
  exact ResourcePool.release_ok
    (h.slots ▸ h.inSlots alloc (Multiset.mem_cons_self _ _)) hbal.free_add_le

theorem released (h : Books pool (alloc ::ₘ held)) (hok : pool.release alloc = .ok pool') :
    Books pool' held := by
  have hbal := h.balanced
  rw [Multiset.map_cons] at hbal
  obtain ⟨-, halike, hfree⟩ := ResourcePool.release_eq_ok.1 hok
  refine ⟨halike.total ▸ h.numbered, ?_, ?_, ?_, ?_⟩
  · rw [halike.slots, halike.total, h.slots]
  · rw [halike.blocked, halike.total, h.flags]
  · rw [halike.total]; exact hbal.give hfree
  · rw [halike.total]; exact (Multiset.forall_mem_cons.1 h.inSlots).2

/-- Which cards are blocked does not matter to the books. -/
theorem setBlocked (h : Books pool held) {blocked : List Bool}
    (hlen : blocked.length = pool.blocked.length) :
    Books { pool with blocked := blocked } held :=
  ⟨h.numbered, h.slots, hlen.trans h.flags, h.balanced, h.inSlots⟩

theorem cpu (h : Books pool held) :
    pool.availableCpu.toNat + (held.map fun alloc => alloc.cpu.toNat).sum =
      pool.total.cpuCores.toNat := by
  have hbal := h.balanced.coord .cpu
  rw [Multiset.map_map] at hbal
  exact hbal

theorem memory (h : Books pool held) :
    pool.availableMemoryMb.toNat + (held.map fun alloc => alloc.memoryMb.toNat).sum =
      pool.total.memoryMb.toNat := by
  have hbal := h.balanced.coord .memory
  rw [Multiset.map_map] at hbal
  exact hbal

/-- A pool with nothing out is a fresh one, up to its flags. -/
theorem eq_new (h : Books pool 0) : pool = { ResourcePool.new pool.total with
    blocked := pool.blocked } := by
  have hfree := h.balanced.restored
  have halike : ResourcePool.Alike { ResourcePool.new pool.total with blocked := pool.blocked }
      pool := ⟨rfl, rfl, by simp [ResourcePool.new, h.slots]⟩
  exact halike.eq_of_free_eq (hfree.trans (ResourcePool.free_new _).symm)

end Books

/-! ### Histories -/

/-- A pool and the allocations it has handed out and not got back. -/
structure PoolState where
  pool : ResourcePool
  out : List Allocation
  deriving DecidableEq

/-- What can happen to a pool. -/
inductive PoolOp
  | tryReserve (spec : ResourceSpec)
  | reserveCard (index : UInt32)
  /-- Give back the `k`-th allocation that is out. -/
  | release (k : ℕ)
  /-- A GPU check decides anew which cards are handed out. -/
  | setBlocked (flags : ℕ → Bool)

/-- The operation leaves the flags alone. -/
def PoolOp.keepsFlags : PoolOp → Bool
  | .setBlocked _ => false
  | _ => true

namespace PoolState

/-- A pool as the daemon starts with it. -/
def fresh (resources : SystemResources) : PoolState := ⟨.new resources, []⟩

/-- Perform one operation. -/
def step (st : PoolState) : PoolOp → Exec PoolState
  | .tryReserve spec => do
    let (found, pool) ← st.pool.tryReserve spec
    return ⟨pool, found.toList ++ st.out⟩
  | .reserveCard index => do
    let (found, pool) ← st.pool.reserveCard index
    return ⟨pool, found.toList ++ st.out⟩
  | .release k =>
    match st.out[k]? with
    | none => .ok st
    | some alloc => do
      let pool ← st.pool.release alloc
      return ⟨pool, st.out.eraseIdx k⟩
  | .setBlocked flags =>
    .ok { st with pool := { st.pool with
      blocked := (List.range st.pool.blocked.length).map flags } }

/-- Perform a history of operations. -/
def run (st : PoolState) (ops : List PoolOp) : Exec PoolState := ops.foldlM step st

@[simp] theorem run_nil (st : PoolState) : st.run [] = .ok st := rfl

@[simp] theorem run_cons (st : PoolState) (op : PoolOp) (ops : List PoolOp) :
    st.run (op :: ops) = st.step op >>= fun st' => st'.run ops := rfl

theorem run_append (st : PoolState) (ops ops' : List PoolOp) :
    st.run (ops ++ ops') = st.run ops >>= fun st' => st'.run ops' := by
  simp [run, List.foldlM_append]

/-- What one operation did to the pool and to what is out. -/
inductive Moved (st : PoolState) : PoolState → Prop
  | same : Moved st st
  | reserved (pool : ResourcePool) (alloc : Allocation) (gpus : List GpuInfo) :
      st.pool.Reserved gpus alloc pool → Moved st ⟨pool, alloc :: st.out⟩
  | released (pool : ResourcePool) (alloc : Allocation) (rest : List Allocation) :
      st.out.Perm (alloc :: rest) → st.pool.release alloc = .ok pool → Moved st ⟨pool, rest⟩
  | flagged (blocked : List Bool) : blocked.length = st.pool.blocked.length →
      Moved st { st with pool := { st.pool with blocked := blocked } }

/-- Every step is one of the four moves. -/
theorem step_moved {st st' : PoolState} {op : PoolOp} (h : st.step op = .ok st') :
    Moved st st' := by
  cases op with
  | tryReserve spec =>
    simp only [step, Exec.bind_eq_ok, Exec.pure_eq_ok] at h
    obtain ⟨⟨found, pool⟩, hok, rfl⟩ := h
    obtain ⟨rfl, rfl⟩ | ⟨alloc, gpus, rfl, hres, -⟩ := ResourcePool.tryReserve_eq_ok hok
    · exact .same
    · exact .reserved pool alloc gpus hres
  | reserveCard index =>
    simp only [step, Exec.bind_eq_ok, Exec.pure_eq_ok] at h
    obtain ⟨⟨found, pool⟩, hok, rfl⟩ := h
    obtain ⟨rfl, rfl⟩ | ⟨gpu, -, rfl, hres⟩ := ResourcePool.reserveCard_eq_ok hok
    · exact .same
    · exact .reserved pool _ [gpu] hres
  | release k =>
    simp only [step] at h
    split at h
    · obtain rfl := Except.ok.inj h
      exact .same
    · next alloc hk =>
      simp only [Exec.bind_eq_ok, Exec.pure_eq_ok] at h
      obtain ⟨pool, hok, rfl⟩ := h
      obtain ⟨hlt, rfl⟩ := List.getElem?_eq_some_iff.1 hk
      exact .released pool _ _ (List.getElem_cons_eraseIdx_perm hlt).symm hok
  | setBlocked flags =>
    obtain rfl := Except.ok.inj h
    exact .flagged _ (by simp)

theorem Moved.total {st st' : PoolState} (h : Moved st st') : st'.pool.total = st.pool.total := by
  cases h with
  | same => rfl
  | reserved pool alloc gpus hres => exact hres.alike.total
  | released pool alloc rest hperm hok => exact (ResourcePool.release_eq_ok.1 hok).2.1.total
  | flagged blocked hlen => rfl

theorem Moved.books {st st' : PoolState} (h : Moved st st') (hb : Books st.pool st.out) :
    Books st'.pool st'.out := by
  cases h with
  | same => exact hb
  | reserved pool alloc gpus hres => exact hb.reserved hres
  | released pool alloc rest hperm hok =>
    rw [Multiset.coe_eq_coe.2 hperm, ← Multiset.cons_coe] at hb
    exact hb.released hok
  | flagged blocked hlen => exact hb.setBlocked hlen

/-- With the books in order no operation panics. -/
theorem step_ok {st : PoolState} (h : Books st.pool st.out) (op : PoolOp) :
    ∃ st', st.step op = .ok st' := by
  cases op with
  | tryReserve spec =>
    obtain ⟨found, pool, hok⟩ := h.tryReserve_ok spec
    exact ⟨⟨pool, found.toList ++ st.out⟩, by simp [step, hok]⟩
  | reserveCard index =>
    obtain ⟨found, pool, hok⟩ := h.reserveCard_ok index
    exact ⟨⟨pool, found.toList ++ st.out⟩, by simp [step, hok]⟩
  | release k =>
    cases hk : st.out[k]? with
    | none => exact ⟨st, by simp [step, hk]⟩
    | some alloc =>
      obtain ⟨hlt, rfl⟩ := List.getElem?_eq_some_iff.1 hk
      rw [Multiset.coe_eq_coe.2 (List.getElem_cons_eraseIdx_perm hlt).symm,
        ← Multiset.cons_coe] at h
      obtain ⟨pool, hok⟩ := h.release_ok
      exact ⟨⟨pool, st.out.eraseIdx k⟩, by simp [step, hk, hok]⟩
  | setBlocked flags => exact ⟨_, rfl⟩

/-- An invariant of the four moves that includes the books holds after every history, and no
history panics. -/
theorem run_invariant {I : PoolState → Prop} (books : ∀ st, I st → Books st.pool st.out)
    (moved : ∀ st st', I st → Moved st st' → I st') {st : PoolState} (h : I st)
    (ops : List PoolOp) :
    ∃ st', st.run ops = .ok st' ∧ st'.pool.total = st.pool.total ∧ I st' := by
  induction ops generalizing st with
  | nil => exact ⟨st, rfl, rfl, h⟩
  | cons op ops ih =>
    obtain ⟨mid, hmid⟩ := step_ok (books st h) op
    have hmove := step_moved hmid
    obtain ⟨st', hrun, htotal, hst'⟩ := ih (moved st mid h hmove)
    exact ⟨st', by simp [hmid, hrun], htotal.trans hmove.total, hst'⟩

theorem run_books {st : PoolState} (h : Books st.pool st.out) (ops : List PoolOp) :
    ∃ st', st.run ops = .ok st' ∧ st'.pool.total = st.pool.total ∧
      Books st'.pool st'.out :=
  run_invariant (fun _ => id) (fun _ _ hb hmove => hmove.books hb) h ops

end PoolState

end Roster
