import Roster.Data.Ledger
import Roster.Resource.Pool
import Mathlib.Algebra.Group.Pi.Basic
import Mathlib.Algebra.Order.Group.Nat

/-!
# What the pool operations do to a node's amounts

A node has three kinds of resources: cores, memory, and the VRAM of each slot (`Resource`).  An
inventory, a pool's free resources and an allocation are vectors of amounts over them, and each
pool operation has one equation in these vectors: `tryReserve` and `reserveCard` move an
allocation's amounts out of `free` (`tryReserve_eq_ok`, `reserveCard_eq_ok`), `release` moves them
back (`release_eq_ok`), and `selectGpus_ok`, `tryReserve_ok`, `reserveCard_ok` say when they do
not panic.  Nothing here assumes that a card's index is its position.
-/

namespace Roster

/-- The resources of a node; `vram i` is the VRAM of slot `i`. -/
inductive Resource
  | cpu
  | memory
  | vram (slot : ℕ)

/-- VRAM an allocation's cards book in slot `i`. -/
def booked (i : ℕ) : List GpuAllocation → ℕ
  | [] => 0
  | gpu :: gpus => (if gpu.index.toNat = i then gpu.vramMb.toNat else 0) + booked i gpus

/-- VRAM in slot `i`; 0 outside the slots. -/
def slotAmount (slots : List UInt64) (i : ℕ) : ℕ := (slots.getD i 0).toNat

/-- What an allocation holds. -/
def Allocation.amount (alloc : Allocation) : Resource → ℕ
  | .cpu => alloc.cpu.toNat
  | .memory => alloc.memoryMb.toNat
  | .vram i => booked i alloc.gpus

/-- What an inventory has. -/
def SystemResources.amount (resources : SystemResources) : Resource → ℕ
  | .cpu => resources.cpuCores.toNat
  | .memory => resources.memoryMb.toNat
  | .vram i => slotAmount (resources.gpus.map GpuInfo.vramMb) i

/-- What of a pool is free. -/
def ResourcePool.free (pool : ResourcePool) : Resource → ℕ
  | .cpu => pool.availableCpu.toNat
  | .memory => pool.availableMemoryMb.toNat
  | .vram i => slotAmount pool.availableVramMb i

@[simp] theorem ResourcePool.free_new (resources : SystemResources) :
    (ResourcePool.new resources).free = resources.amount := by
  funext r; cases r <;> rfl

/-! ### Slots -/

theorem slotAmount_of_length_le {slots : List UInt64} {i : ℕ} (h : slots.length ≤ i) :
    slotAmount slots i = 0 := by
  simp [slotAmount, List.getElem?_eq_none h]

theorem slotAmount_of_getElem? {slots : List UInt64} {i : ℕ} {v : UInt64}
    (h : slots[i]? = some v) : slotAmount slots i = v.toNat := by
  simp [slotAmount, h]

/-- Slots of one length are determined by their amounts. -/
theorem slots_ext {slots slots' : List UInt64} (hlen : slots.length = slots'.length)
    (h : ∀ i, slotAmount slots i = slotAmount slots' i) : slots = slots' := by
  refine List.ext_getElem hlen fun i hi hi' => UInt64.toNat_inj.1 ?_
  simpa [slotAmount, hi, hi'] using h i

theorem slotAmount_set {slots : List UInt64} {i j : ℕ} {v : UInt64} (hi : i < slots.length) :
    slotAmount (slots.set i v) j = if j = i then v.toNat else slotAmount slots j := by
  unfold slotAmount
  by_cases hj : j = i
  · subst hj; simp [hi]
  · simp [hj, List.getElem?_set_ne (Ne.symm hj)]

/-! ### Changing slots

`try_reserve` takes VRAM out of slots and `release` puts it back: the same loop over an
allocation's cards, with another checked operation on the slot. -/

/-- The checked operation `op` changes a slot by an amount; `rel` relates the amount before, the
change and the amount after. -/
structure Changes (op : UInt64 → UInt64 → Exec UInt64) (rel : ℕ → ℕ → ℕ → Prop) : Prop where
  eq_ok {x v y : UInt64} : op x v = .ok y ↔ rel x.toNat v.toNat y.toNat
  nothing {x y : ℕ} : rel x 0 y ↔ y = x
  add {x a y b z : ℕ} : rel x a y → (rel y b z ↔ rel x (a + b) z)
  /-- What can change by a sum can change by the first of the two. -/
  first {x v z : UInt64} {b : ℕ} : rel x.toNat (v.toNat + b) z.toNat →
    ∃ y : UInt64, rel x.toNat v.toNat y.toNat

theorem changes_sub : Changes Exec.subU64 fun x v y => y + v = x where
  eq_ok := Exec.subU64_eq_ok
  nothing := by simp
  add h := by omega
  first {x v z b} h := by
    have hle : v ≤ x := UInt64.le_iff_toNat_le.2 (by omega)
    exact ⟨x - v, by rw [UInt64.toNat_sub_of_le _ _ hle, Nat.sub_add_cancel
      (UInt64.le_iff_toNat_le.1 hle)]⟩

theorem changes_add : Changes Exec.addU64 fun x v y => y = x + v where
  eq_ok := Exec.addU64_eq_ok
  nothing := by simp
  add h := by omega
  first {x v z b} h := by
    have hlt : x.toNat + v.toNat < UInt64.size := by
      have hz := z.toNat_lt
      simp only [UInt64.size]; omega
    exact ⟨UInt64.ofNat (x.toNat + v.toNat), UInt64.toNat_ofNat_of_lt' hlt⟩

namespace Changes

variable {op : UInt64 → UInt64 → Exec UInt64} {rel : ℕ → ℕ → ℕ → Prop}
  {slots slots' : List UInt64}

theorem update_eq_ok (h : Changes op rel) {i : ℕ} {v : UInt64} :
    Exec.update slots i (fun free => op free v) = .ok slots' ↔
      i < slots.length ∧ slots'.length = slots.length ∧
        ∀ j, rel (slotAmount slots j) (if i = j then v.toNat else 0) (slotAmount slots' j) := by
  simp only [Exec.update_eq_ok, h.eq_ok]
  constructor
  · rintro ⟨x, y, hx, hy, rfl⟩
    obtain ⟨hi, -⟩ := List.getElem?_eq_some_iff.1 hx
    refine ⟨hi, by simp, fun j => ?_⟩
    rw [slotAmount_set hi]
    by_cases hj : j = i
    · subst hj; simpa [slotAmount_of_getElem? hx] using hy
    · simp [hj, Ne.symm hj, h.nothing]
  · rintro ⟨hi, hlen, hrel⟩
    have hi' : i < slots'.length := hlen ▸ hi
    refine ⟨slots[i], slots'[i], List.getElem?_eq_getElem hi, ?_, ?_⟩
    · simpa [slotAmount, hi, hi'] using hrel i
    · refine slots_ext (by simp [hlen]) fun j => ?_
      have hj := hrel j
      rw [slotAmount_set hi]
      split
      · next heq => subst heq; simp [slotAmount, hi']
      · next hne => rw [if_neg (Ne.symm hne), h.nothing] at hj; exact hj.symm

/-- The loop over an allocation's cards succeeds exactly when every card's slot exists and every
slot can change by what the cards book in it. -/
theorem cards_eq_ok (h : Changes op rel) {gpus : List GpuAllocation} :
    gpus.foldlM (fun slots gpu =>
        Exec.update slots gpu.index.toNat fun free => op free gpu.vramMb) slots = .ok slots' ↔
      (∀ gpu ∈ gpus, gpu.index.toNat < slots.length) ∧ slots'.length = slots.length ∧
        ∀ i, rel (slotAmount slots i) (booked i gpus) (slotAmount slots' i) := by
  induction gpus generalizing slots with
  | nil =>
    simp only [List.foldlM_nil, Exec.pure_eq_ok, booked, h.nothing]
    constructor
    · rintro rfl; simp
    · rintro ⟨-, hlen, hsame⟩; exact slots_ext hlen.symm fun i => (hsame i).symm
  | cons gpu gpus ih =>
    simp only [List.foldlM_cons, Exec.bind_eq_ok, ih, h.update_eq_ok, List.forall_mem_cons, booked]
    constructor
    · rintro ⟨mid, ⟨hi, hlen, hmid⟩, hrest, hlen', hsum⟩
      exact ⟨⟨hi, fun g hg => hlen ▸ hrest g hg⟩, hlen'.trans hlen, fun i =>
        (h.add (hmid i)).1 (hsum i)⟩
    · rintro ⟨⟨hi, hrest⟩, hlen, hsum⟩
      -- the first card's slot
      have hcard := hsum gpu.index.toNat
      have hi' : gpu.index.toNat < slots'.length := hlen ▸ hi
      rw [if_pos rfl, slotAmount_of_getElem? (List.getElem?_eq_getElem hi),
        slotAmount_of_getElem? (List.getElem?_eq_getElem hi')] at hcard
      obtain ⟨y, hy⟩ := h.first hcard
      have hupdate : Exec.update slots gpu.index.toNat (fun free => op free gpu.vramMb) =
          .ok (slots.set gpu.index.toNat y) :=
        Exec.update_eq_ok.2 ⟨_, y, List.getElem?_eq_getElem hi, h.eq_ok.2 hy, rfl⟩
      obtain ⟨-, hlen₁, hmid⟩ := h.update_eq_ok.1 hupdate
      exact ⟨_, ⟨hi, hlen₁, hmid⟩, fun g hg => hlen₁ ▸ hrest g hg, hlen.trans hlen₁.symm,
        fun i => (h.add (hmid i)).2 (hsum i)⟩

end Changes

namespace ResourcePool

/-- `takeCards` succeeds exactly when every card's slot exists and holds what is taken. -/
theorem takeCards_eq_ok {slots slots' : List UInt64} {gpus : List GpuAllocation} :
    takeCards slots gpus = .ok slots' ↔
      (∀ gpu ∈ gpus, gpu.index.toNat < slots.length) ∧ slots'.length = slots.length ∧
        ∀ i, slotAmount slots' i + booked i gpus = slotAmount slots i :=
  changes_sub.cards_eq_ok

/-- `returnCards` succeeds exactly when every card's slot exists and does not overflow. -/
theorem returnCards_eq_ok {slots slots' : List UInt64} {gpus : List GpuAllocation} :
    returnCards slots gpus = .ok slots' ↔
      (∀ gpu ∈ gpus, gpu.index.toNat < slots.length) ∧ slots'.length = slots.length ∧
        ∀ i, slotAmount slots' i = slotAmount slots i + booked i gpus :=
  changes_add.cards_eq_ok

/-! ### The operations -/

/-- Two states of one pool: same inventory, same flags, same slots. -/
structure Alike (pool pool' : ResourcePool) : Prop where
  total : pool'.total = pool.total
  blocked : pool'.blocked = pool.blocked
  slots : pool'.availableVramMb.length = pool.availableVramMb.length

theorem Alike.refl (pool : ResourcePool) : Alike pool pool := ⟨rfl, rfl, rfl⟩

theorem Alike.trans {p q r : ResourcePool} (h : Alike p q) (h' : Alike q r) : Alike p r :=
  ⟨h'.total.trans h.total, h'.blocked.trans h.blocked, h'.slots.trans h.slots⟩

/-- A pool is determined by its inventory, its flags and what is free. -/
theorem Alike.eq_of_free_eq {pool pool' : ResourcePool} (h : Alike pool pool')
    (hfree : pool'.free = pool.free) : pool' = pool := by
  have hcpu : pool'.availableCpu = pool.availableCpu :=
    UInt32.toNat_inj.1 (congrFun hfree .cpu)
  have hmem : pool'.availableMemoryMb = pool.availableMemoryMb :=
    UInt64.toNat_inj.1 (congrFun hfree .memory)
  have hvram : pool'.availableVramMb = pool.availableVramMb :=
    slots_ext h.slots fun i => congrFun hfree (.vram i)
  obtain ⟨htotal, hblocked, -⟩ := h
  cases pool; cases pool'
  simp_all

/-- `gpu` can be handed out to a job that needs `share` on each card. -/
def admits (pool : ResourcePool) (share : UInt64) (gpu : GpuInfo) : Bool :=
  decide (gpu.vramMb ≠ 0) && decide (pool.availableVramMb[gpu.index.toNat]? = some gpu.vramMb) &&
    decide (pool.blocked[gpu.index.toNat]? = some false) && decide (share ≤ gpu.vramMb)

theorem admits_iff {pool : ResourcePool} {share : UInt64} {gpu : GpuInfo} :
    pool.admits share gpu = true ↔ gpu.vramMb ≠ 0 ∧
      pool.availableVramMb[gpu.index.toNat]? = some gpu.vramMb ∧
      pool.blocked[gpu.index.toNat]? = some false ∧ share ≤ gpu.vramMb := by
  simp [admits, and_assoc]

/-- Every card with VRAM has a slot and a flag. -/
def InRange (pool : ResourcePool) : Prop :=
  ∀ gpu ∈ pool.total.gpus, gpu.vramMb ≠ 0 →
    gpu.index.toNat < pool.availableVramMb.length ∧ gpu.index.toNat < pool.blocked.length

/-- The search for cards takes a prefix of the admissible ones, whatever the indices are. -/
theorem selectGpus_eq_ok {pool : ResourcePool} {share : UInt64} {n : ℕ} {gpus : List GpuInfo}
    {selected : List GpuAllocation} (h : pool.selectGpus share n gpus = .ok selected) :
    selected = ((gpus.filter (pool.admits share)).take n).map GpuInfo.whole := by
  fun_induction selectGpus generalizing selected with
  | case1 => simpa using h.symm
  | case2 => simpa using h.symm
  | case3 n gpu gpus hzero ih =>
    rw [List.filter_cons_of_neg (by simp [admits_iff, hzero])]
    exact ih h
  | case4 n gpu gpus hzero ih₁ ih₂ =>
    simp only [Exec.bind_eq_ok, Exec.index_eq_ok] at h
    obtain ⟨free, hfree, h⟩ := h
    split at h
    · next hne =>
      -- a card that is booked, blocked or too small is passed over
      rw [List.filter_cons_of_neg (by simp [admits_iff, hfree, hne])]
      exact ih₁ h
    · next heq =>
      simp only [Exec.bind_eq_ok, Exec.index_eq_ok] at h
      obtain ⟨blocked, hblocked, h⟩ := h
      split at h
      · next hb =>
        rw [List.filter_cons_of_neg]
        · exact ih₁ h
        · rintro hadm
          obtain ⟨-, -, hflag, hshare⟩ := admits_iff.1 hadm
          rw [hblocked, Option.some.injEq] at hflag
          rcases hb with hb | hb
          · simp [hb] at hflag
          · exact absurd hshare (by simpa using hb)
      · next hb =>
        push Not at hb
        simp only [Exec.bind_eq_ok, Exec.pure_eq_ok] at h
        obtain ⟨rest, hrest, rfl⟩ := h
        have hadm : pool.admits share gpu = true := by
          rw [admits_iff]
          refine ⟨hzero, ?_, ?_, by simpa using hb.2⟩
          · rw [hfree]; simpa using heq
          · rw [hblocked]; simpa using hb.1
        rw [List.filter_cons_of_pos hadm, List.take_succ_cons, List.map_cons,
          ih₂ hrest]

theorem selectGpus_ok {pool : ResourcePool} (share : UInt64) (n : ℕ) {gpus : List GpuInfo}
    (h : ∀ gpu ∈ gpus, gpu.vramMb ≠ 0 →
      gpu.index.toNat < pool.availableVramMb.length ∧ gpu.index.toNat < pool.blocked.length) :
    ∃ selected, pool.selectGpus share n gpus = .ok selected := by
  fun_induction selectGpus with
  | case1 => exact ⟨_, rfl⟩
  | case2 => exact ⟨_, rfl⟩
  | case3 n gpu gpus hzero ih => exact ih fun g hg => h g (List.mem_cons_of_mem _ hg)
  | case4 n gpu gpus hzero ih₁ ih₂ =>
    obtain ⟨hslot, hflag⟩ := h gpu List.mem_cons_self hzero
    have hrest := fun g hg => h g (List.mem_cons_of_mem gpu hg)
    simp only [Exec.index, List.getElem?_eq_getElem hslot, List.getElem?_eq_getElem hflag,
      Exec.ok_bind]
    split
    · exact ih₁ hrest
    · split
      · exact ih₁ hrest
      · obtain ⟨rest, hok⟩ := ih₂ hrest
        exact ⟨gpu.whole :: rest, by simp [hok]⟩

/-- What reserving `alloc`, made of the cards `gpus`, did to the pool. -/
structure Reserved (pool : ResourcePool) (gpus : List GpuInfo) (alloc : Allocation)
    (pool' : ResourcePool) : Prop where
  alike : Alike pool pool'
  free : pool'.free + alloc.amount = pool.free
  sublist : gpus.Sublist pool.total.gpus
  cards : gpus.map GpuInfo.whole = alloc.gpus
  /-- Every card had VRAM and none of it booked. -/
  unbooked : ∀ gpu ∈ gpus, gpu.vramMb ≠ 0 ∧
    pool.availableVramMb[gpu.index.toNat]? = some gpu.vramMb

/-- The cards `try_find_gpus` returns. -/
theorem tryFindGpus_eq_ok {pool : ResourcePool} {spec : ResourceSpec}
    {cards : List GpuAllocation} (h : pool.tryFindGpus spec = .ok (some cards)) :
    cards.length = spec.gpu.toNat ∧ ∃ gpus : List GpuInfo, gpus.Sublist pool.total.gpus ∧
      gpus.map GpuInfo.whole = cards ∧ ∀ gpu ∈ gpus, pool.admits spec.vramPerGpu gpu = true := by
  unfold tryFindGpus at h
  split at h
  · next hzero =>
    obtain rfl : [] = cards := by simpa using h
    exact ⟨by simp [hzero], [], by simp⟩
  · simp only [Exec.bind_eq_ok, Exec.pure_eq_ok] at h
    obtain ⟨selected, hsel, h⟩ := h
    split at h
    · next hlen =>
      obtain rfl := Option.some.inj h
      refine ⟨hlen, _, ?_, (selectGpus_eq_ok hsel).symm, ?_⟩
      · exact (List.take_sublist _ _).trans List.filter_sublist
      · exact fun gpu hgpu => (List.mem_filter.1 (List.mem_of_mem_take hgpu)).2
    · cases h

/-- `try_reserve` returns what it took, and leaves the pool as it is when it returns `None`. -/
theorem tryReserve_eq_ok {pool pool' : ResourcePool} {spec : ResourceSpec}
    {found : Option Allocation} (h : pool.tryReserve spec = .ok (found, pool')) :
    (found = none ∧ pool' = pool) ∨
      ∃ alloc gpus, found = some alloc ∧ Reserved pool gpus alloc pool' ∧
        alloc.cpu = spec.cpu ∧ alloc.memoryMb = spec.memoryMb ∧
        alloc.gpus.length = spec.gpu.toNat ∧
        ∀ gpu ∈ gpus, pool.admits spec.vramPerGpu gpu = true := by
  unfold tryReserve at h
  split at h
  · cases h; exact .inl ⟨rfl, rfl⟩
  split at h
  · cases h; exact .inl ⟨rfl, rfl⟩
  simp only [Exec.bind_eq_ok] at h
  obtain ⟨cards, hcards, h⟩ := h
  -- a request for no card takes the same empty selection that `try_find_gpus` returns
  replace hcards : pool.tryFindGpus spec = .ok cards := by
    unfold tryFindGpus at hcards ⊢; split <;> simp_all
  cases cards with
  | none => cases Exec.pure_eq_ok.1 h; exact .inl ⟨rfl, rfl⟩
  | some cards =>
    simp only [Exec.bind_eq_ok, Exec.pure_eq_ok, Exec.subU32_eq_ok, Exec.subU64_eq_ok,
      takeCards_eq_ok, Prod.mk.injEq] at h
    obtain ⟨cpu, hcpu, memoryMb, hmem, slots, ⟨-, hlen, hslots⟩, rfl, rfl⟩ := h
    obtain ⟨hcount, gpus, hsub, hmap, hadm⟩ := tryFindGpus_eq_ok hcards
    refine .inr ⟨_, gpus, rfl, ⟨⟨rfl, rfl, hlen⟩, ?_, hsub, hmap, fun gpu hgpu => ?_⟩, rfl, rfl,
      hcount, hadm⟩
    · funext r
      cases r with
      | cpu => exact hcpu
      | memory => exact hmem
      | vram i => exact hslots i
    · obtain ⟨hne, hslot, -⟩ := admits_iff.1 (hadm gpu hgpu)
      exact ⟨hne, hslot⟩

/-- `reserve_card` takes one whole free card, and leaves the pool as it is otherwise. -/
theorem reserveCard_eq_ok {pool pool' : ResourcePool} {index : UInt32}
    {found : Option Allocation} (h : pool.reserveCard index = .ok (found, pool')) :
    (found = none ∧ pool' = pool) ∨
      ∃ gpu, gpu.index = index ∧ found = some ⟨0, 0, [gpu.whole]⟩ ∧
        Reserved pool [gpu] ⟨0, 0, [gpu.whole]⟩ pool' := by
  unfold reserveCard at h
  split at h
  · cases h; exact .inl ⟨rfl, rfl⟩
  · next gpu hfind =>
    have hmem := List.mem_of_find?_eq_some hfind
    obtain rfl : gpu.index = index := by simpa using List.find?_some hfind
    split at h
    · cases h; exact .inl ⟨rfl, rfl⟩
    · next hne =>
      simp only [Exec.bind_eq_ok, Exec.index_eq_ok] at h
      obtain ⟨free, hfree, h⟩ := h
      split at h
      · cases Exec.pure_eq_ok.1 h; exact .inl ⟨rfl, rfl⟩
      · next hwhole =>
        simp only [ne_eq, not_not] at hwhole
        subst hwhole
        simp only [Exec.pure_eq_ok, Prod.mk.injEq] at h
        obtain ⟨rfl, rfl⟩ := h
        obtain ⟨hi, -⟩ := List.getElem?_eq_some_iff.1 hfree
        refine .inr ⟨gpu, rfl, rfl, ⟨rfl, rfl, by simp⟩, ?_, by simpa using hmem, rfl,
          fun g hg => ?_⟩
        -- only the slot of this card changes
        · funext r
          cases r with
          | cpu => rfl
          | memory => rfl
          | vram i =>
            simp only [Pi.add_apply, free, Allocation.amount, booked, GpuInfo.whole,
              slotAmount_set hi]
            by_cases h : i = gpu.index.toNat
            · subst h; simp [slotAmount_of_getElem? hfree]
            · simp [h, Ne.symm h]
        · obtain rfl := List.mem_singleton.1 hg
          exact ⟨hne, hfree⟩

/-- `release` adds the allocation's amounts back; it panics exactly when a card has no slot or
an amount overflows. -/
theorem release_eq_ok {pool pool' : ResourcePool} {alloc : Allocation} :
    pool.release alloc = .ok pool' ↔
      (∀ gpu ∈ alloc.gpus, gpu.index.toNat < pool.availableVramMb.length) ∧
        Alike pool pool' ∧ pool'.free = pool.free + alloc.amount := by
  simp only [release, Exec.bind_eq_ok, Exec.pure_eq_ok, Exec.addU32_eq_ok, Exec.addU64_eq_ok,
    returnCards_eq_ok]
  constructor
  · rintro ⟨cpu, hcpu, memoryMb, hmem, slots, ⟨hin, hlen, hslots⟩, rfl⟩
    refine ⟨hin, ⟨rfl, rfl, hlen⟩, ?_⟩
    funext r
    cases r with
    | cpu => exact hcpu
    | memory => exact hmem
    | vram i => exact hslots i
  · rintro ⟨hin, halike, hfree⟩
    refine ⟨pool'.availableCpu, congrFun hfree .cpu, pool'.availableMemoryMb,
      congrFun hfree .memory, pool'.availableVramMb, ⟨hin, halike.slots, fun i =>
        congrFun hfree (.vram i)⟩, ?_⟩
    obtain ⟨htotal, hblocked, -⟩ := halike
    cases pool; cases pool'
    simp_all

/-! ### When nothing panics -/

/-- A card with VRAM of which none is booked. -/
def unbooked (pool : ResourcePool) (gpu : GpuInfo) : Bool :=
  decide (gpu.vramMb ≠ 0) && decide (pool.availableVramMb[gpu.index.toNat]? = some gpu.vramMb)

/-- No slot stands for two unbooked cards. -/
def Distinct (pool : ResourcePool) : Prop :=
  ((pool.total.gpus.filter pool.unbooked).map fun gpu => gpu.index.toNat).Nodup

theorem booked_eq_zero {gpus : List GpuAllocation} {i : ℕ}
    (h : ∀ gpu ∈ gpus, gpu.index.toNat ≠ i) : booked i gpus = 0 := by
  induction gpus with
  | nil => rfl
  | cons gpu gpus ih =>
    rw [List.forall_mem_cons] at h
    simp [booked, h.1, ih h.2]

/-- Whole unbooked cards on distinct slots never book more than their slots hold. -/
theorem booked_whole_le {slots : List UInt64} {gpus : List GpuInfo}
    (hnodup : (gpus.map fun gpu => gpu.index.toNat).Nodup)
    (h : ∀ gpu ∈ gpus, slots[gpu.index.toNat]? = some gpu.vramMb) (i : ℕ) :
    booked i (gpus.map GpuInfo.whole) ≤ slotAmount slots i := by
  induction gpus with
  | nil => exact Nat.zero_le _
  | cons gpu gpus ih =>
    rw [List.map_cons, List.nodup_cons] at hnodup
    rw [List.forall_mem_cons] at h
    simp only [List.map_cons, booked, GpuInfo.whole]
    by_cases hi : gpu.index.toNat = i
    · have hrest : booked i (gpus.map GpuInfo.whole) = 0 := by
        refine booked_eq_zero fun card hcard hci => ?_
        obtain ⟨g, hg, rfl⟩ := List.mem_map.1 hcard
        exact hnodup.1 (List.mem_map.2 ⟨g, hg, hci.trans hi.symm⟩)
      subst hi
      simp [slotAmount_of_getElem? h.1, hrest]
    · simpa [hi] using ih hnodup.2 h.2

/-- Slots with given amounts. -/
theorem exists_slots {n : ℕ} {f : ℕ → ℕ} (hf : ∀ i, f i < UInt64.size)
    (hout : ∀ i, n ≤ i → f i = 0) :
    ∃ slots : List UInt64, slots.length = n ∧ ∀ i, slotAmount slots i = f i := by
  refine ⟨(List.range n).map fun i => UInt64.ofNat (f i), by simp, fun i => ?_⟩
  by_cases hi : i < n
  · rw [slotAmount_of_getElem? (v := UInt64.ofNat (f i)) (by simp [hi]),
      UInt64.toNat_ofNat_of_lt' (hf i)]
  · rw [slotAmount_of_length_le (by simpa using hi), hout i (Nat.le_of_not_lt hi)]

theorem takeCards_ok {slots : List UInt64} {gpus : List GpuAllocation}
    (hin : ∀ gpu ∈ gpus, gpu.index.toNat < slots.length)
    (hle : ∀ i, booked i gpus ≤ slotAmount slots i) :
    ∃ slots', takeCards slots gpus = .ok slots' := by
  obtain ⟨slots', hlen, h⟩ := exists_slots (n := slots.length)
    (f := fun i => slotAmount slots i - booked i gpus)
    (fun i => (Nat.sub_le _ _).trans_lt (UInt64.toNat_lt _))
    (fun i hi => by rw [slotAmount_of_length_le hi, Nat.zero_sub])
  exact ⟨slots', takeCards_eq_ok.2 ⟨hin, hlen, fun i => by rw [h i, Nat.sub_add_cancel (hle i)]⟩⟩

theorem returnCards_ok {slots : List UInt64} {gpus : List GpuAllocation}
    (hin : ∀ gpu ∈ gpus, gpu.index.toNat < slots.length)
    (hlt : ∀ i, slotAmount slots i + booked i gpus < UInt64.size) :
    ∃ slots', returnCards slots gpus = .ok slots' := by
  obtain ⟨slots', hlen, h⟩ := exists_slots (n := slots.length)
    (f := fun i => slotAmount slots i + booked i gpus) hlt fun i hi => by
      rw [slotAmount_of_length_le hi, booked_eq_zero fun gpu hgpu hgi => ?_]
      exact absurd (hin gpu hgpu) (by omega)
  exact ⟨slots', returnCards_eq_ok.2 ⟨hin, hlen, h⟩⟩

theorem tryFindGpus_ok {pool : ResourcePool} (spec : ResourceSpec) (h : pool.InRange) :
    ∃ found, pool.tryFindGpus spec = .ok found := by
  unfold tryFindGpus
  split
  · exact ⟨_, rfl⟩
  · obtain ⟨selected, hsel⟩ := selectGpus_ok spec.vramPerGpu spec.gpu.toNat h
    exact ⟨_, by rw [hsel]; rfl⟩

theorem tryReserve_ok {pool : ResourcePool} {spec : ResourceSpec} (hin : pool.InRange)
    (hdist : pool.Distinct) : ∃ r, pool.tryReserve spec = .ok r := by
  obtain ⟨found, hfound⟩ := tryFindGpus_ok spec hin
  have hcards : (if spec.gpu = 0 then .ok (some []) else pool.tryFindGpus spec) =
      (.ok found : Exec _) := by
    unfold tryFindGpus at hfound ⊢; split <;> simp_all
  unfold tryReserve
  split
  · exact ⟨_, rfl⟩
  split
  · exact ⟨_, rfl⟩
  rw [hcards, Exec.ok_bind]
  next hcpu hmem =>
  cases found with
  | none => exact ⟨_, rfl⟩
  | some cards =>
    obtain ⟨-, gpus, hsub, rfl, hadm⟩ := tryFindGpus_eq_ok hfound
    have hslot : ∀ gpu ∈ gpus, pool.availableVramMb[gpu.index.toNat]? = some gpu.vramMb :=
      fun gpu hgpu => (admits_iff.1 (hadm gpu hgpu)).2.1
    have hnodup : (gpus.map fun gpu => gpu.index.toNat).Nodup := by
      refine hdist.sublist (List.Sublist.map _ ?_)
      have hall : gpus.filter pool.unbooked = gpus := List.filter_eq_self.2 fun gpu hgpu => by
        simp [unbooked, (admits_iff.1 (hadm gpu hgpu)).1, hslot gpu hgpu]
      exact hall ▸ hsub.filter pool.unbooked
    have hrange : ∀ card ∈ gpus.map GpuInfo.whole,
        card.index.toNat < pool.availableVramMb.length := fun card hcard => by
      obtain ⟨gpu, hgpu, rfl⟩ := List.mem_map.1 hcard
      exact (List.getElem?_eq_some_iff.1 (hslot gpu hgpu)).1
    obtain ⟨slots, htake⟩ := takeCards_ok hrange (booked_whole_le hnodup hslot)
    simp only [Exec.subU32, Exec.subU64]
    rw [if_pos (by simpa using hcpu), if_pos (by simpa using hmem)]
    simp [htake]

theorem release_ok {pool : ResourcePool} {alloc : Allocation}
    (hin : ∀ gpu ∈ alloc.gpus, gpu.index.toNat < pool.availableVramMb.length)
    (hle : pool.free + alloc.amount ≤ pool.total.amount) :
    ∃ pool', pool.release alloc = .ok pool' := by
  have hcpu : pool.availableCpu.toNat + alloc.cpu.toNat < UInt32.size :=
    (hle .cpu).trans_lt (UInt32.toNat_lt _)
  have hmem : pool.availableMemoryMb.toNat + alloc.memoryMb.toNat < UInt64.size :=
    (hle .memory).trans_lt (UInt64.toNat_lt _)
  obtain ⟨slots, hslots⟩ := returnCards_ok hin fun i =>
    (hle (.vram i)).trans_lt (UInt64.toNat_lt _)
  exact ⟨_, by simp only [release, Exec.addU32, Exec.addU64, if_pos hcpu, if_pos hmem, hslots]; rfl⟩

theorem reserveCard_ok {pool : ResourcePool} (index : UInt32) (hin : pool.InRange) :
    ∃ r, pool.reserveCard index = .ok r := by
  unfold reserveCard
  split
  · exact ⟨_, rfl⟩
  · next gpu hfind =>
    obtain rfl : gpu.index = index := by simpa using List.find?_some hfind
    split
    · exact ⟨_, rfl⟩
    · next hne =>
      obtain ⟨hslot, -⟩ := hin gpu (List.mem_of_find?_eq_some hfind) hne
      simp only [Exec.index, List.getElem?_eq_getElem hslot, Exec.ok_bind]
      split <;> exact ⟨_, rfl⟩

end ResourcePool

end Roster
