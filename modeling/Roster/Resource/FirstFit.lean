import Roster.Resource.Placement

/-!
# First fit, all or nothing

`place` tries the members of a job in order, each over its options from the fewest cards up and, for
an option, over the online nodes in order.  `PlacedAll` says what a placement is, member by member:
nothing before the node and option that were taken could be (`PlacedMember.first`), and the cards
are whole, free and large enough.  On a miss the reservations made so far are undone, and every pool
is as it was (`Taken.eq`).
-/

namespace Roster

/-! ### The cards an option asks for -/

namespace ResourceSpec

/-- An even share on every card adds up to the whole. -/
theorem le_mul_divCeil (a : UInt64) {b : UInt64} (hb : b ≠ 0) :
    a.toNat ≤ b.toNat * (divCeil a b).toNat := by
  have hpos : 0 < b.toNat := Nat.pos_of_ne_zero fun h => hb (UInt64.toNat_inj.1 h)
  have hdiv := Nat.div_add_mod a.toNat b.toNat
  have hmod := Nat.mod_lt a.toNat hpos
  unfold divCeil
  split
  · next hrest =>
    rw [UInt64.lt_iff_toNat_lt, UInt64.toNat_mod, show UInt64.toNat 0 = 0 from rfl] at hrest
    have hlt := a.toNat_lt
    -- a remainder means two or more cards, so the quotient leaves room for one more
    have htwo : 2 ≤ b.toNat := by
      by_contra hlt
      rw [show b.toNat = 1 by omega, Nat.mod_one] at hrest
      omega
    have hquot : a.toNat / b.toNat ≤ a.toNat / 2 := Nat.div_le_div_left htwo (by omega)
    rw [UInt64.toNat_add, UInt64.toNat_div, show UInt64.toNat 1 = 1 from rfl,
      Nat.mod_eq_of_lt (by omega), Nat.mul_add]
    omega
  · next hrest =>
    rw [UInt64.lt_iff_toNat_lt, UInt64.toNat_mod, show UInt64.toNat 0 = 0 from rfl] at hrest
    rw [UInt64.toNat_div]
    omega

/-- The cards of every option hold the job's VRAM together. -/
theorem vramMb_le {spec option : ResourceSpec} (h : option ∈ spec.gpuOptions) :
    spec.vramMb.toNat ≤ option.gpu.toNat * option.vramPerGpu.toNat := by
  have hshare : ∀ option : ResourceSpec, option.gpu ≠ 0 →
      option.vramMb.toNat ≤ option.gpu.toNat * option.vramPerGpu.toNat := by
    intro option hgpu
    rw [vramPerGpu, if_neg hgpu, ← UInt32.toNat_toUInt64]
    exact le_mul_divCeil _ fun h => hgpu (UInt32.toNat_inj.1 (congrArg UInt64.toNat h))
  unfold gpuOptions at h
  split at h
  · next hown =>
    obtain rfl := List.mem_singleton.1 h
    by_cases hgpu : option.gpu = 0
    · have hvram : option.vramMb = 0 := hown.resolve_left (by rw [hgpu]; decide)
      rw [hvram]
      exact Nat.zero_le _
    · exact hshare option hgpu
  · obtain ⟨gpu, hgpu, rfl⟩ := List.mem_map.1 h
    have hne : gpu ≠ 0 := by rintro rfl; revert hgpu; decide
    exact hshare { spec with gpu := gpu } hne

end ResourceSpec

/-! ### What a reservation takes -/

/-- The cards are cards of this pool, distinct, with nothing booked and not blocked, and each has
the share. -/
structure CardsFit (pool : ResourcePool) (share : UInt64) (cards : List GpuAllocation) : Prop where
  nodup : (cards.map fun card => card.index.toNat).Nodup
  card : ∀ card ∈ cards, ∃ gpu ∈ pool.total.gpus, card = gpu.whole ∧
    pool.availableVramMb[gpu.index.toNat]? = some gpu.vramMb ∧
    pool.blocked[gpu.index.toNat]? = some false ∧ share ≤ gpu.vramMb

namespace ResourcePool

variable {pool pool' : ResourcePool} {option : ResourceSpec} {alloc : Allocation}

theorem cardsFit_of_tryReserve (hdistinct : pool.Distinct)
    (h : pool.tryReserve option = .ok (some alloc, pool')) :
    CardsFit pool option.vramPerGpu alloc.gpus ∧ alloc.gpus.length = option.gpu.toNat := by
  obtain ⟨hnone, -⟩ | ⟨_, gpus, halloc, hres, -, -, hlen, hadmits⟩ := tryReserve_eq_ok h
  · cases hnone
  · obtain rfl := Option.some.inj halloc
    refine ⟨⟨?_, fun card hcard => ?_⟩, hlen⟩
    · rw [← hres.cards, List.map_map]
      refine hdistinct.sublist (List.Sublist.map _ ?_)
      have hall : gpus.filter pool.unbooked = gpus := List.filter_eq_self.2 fun gpu hgpu => by
        obtain ⟨hne, hslot⟩ := hres.unbooked gpu hgpu
        simp [unbooked, hne, hslot]
      rw [← hall]
      exact hres.sublist.filter _
    · obtain ⟨gpu, hgpu, rfl⟩ := List.mem_map.1 (hres.cards ▸ hcard)
      obtain ⟨-, hslot, hblocked, hshare⟩ := admits_iff.1 (hadmits gpu hgpu)
      exact ⟨gpu, hres.sublist.subset hgpu, rfl, hslot, hblocked, hshare⟩

/-- A pool that reserves nothing does not admit the request. -/
theorem canAdmit_of_tryReserve (h : pool.tryReserve option = .ok (none, pool'))
    (hin : pool.InRange) : pool.canAdmit option = .ok false := by
  obtain ⟨found, hfound⟩ := tryFindGpus_ok option hin
  have hcards : (if option.gpu = 0 then .ok (some []) else pool.tryFindGpus option) =
      (.ok found : Exec _) := by
    unfold tryFindGpus at hfound ⊢; split <;> simp_all
  rw [canAdmit, hfound, Exec.ok_bind]
  unfold tryReserve at h
  rw [hcards, Exec.ok_bind] at h
  refine Exec.pure_eq_ok.2 ?_
  split at h
  · next hcpu => simp [UInt32.not_le.2 hcpu]
  · split at h
    · next hmem => simp [UInt64.not_le.2 hmem]
    · cases found with
      | none => simp
      | some cards =>
        simp only [Exec.bind_eq_ok, Exec.pure_eq_ok, Prod.mk.injEq] at h
        obtain ⟨_, -, _, -, _, -, hnone, -⟩ := h
        cases hnone

end ResourcePool

theorem CardsFit.mul_le_sum {pool : ResourcePool} {share : UInt64} {cards : List GpuAllocation}
    (h : CardsFit pool share cards) :
    cards.length * share.toNat ≤ (cards.map fun card => card.vramMb.toNat).sum := by
  have hsum := List.card_nsmul_le_sum (cards.map fun card => card.vramMb.toNat) share.toNat
    fun vram hvram => by
      obtain ⟨card, hcard, rfl⟩ := List.mem_map.1 hvram
      obtain ⟨gpu, -, rfl, -, -, hshare⟩ := h.card card hcard
      exact UInt64.le_iff_toNat_le.1 hshare
  rwa [List.length_map, smul_eq_mul] at hsum

/-! ### The first success -/

/-- The node is offline, or its pool reserves nothing for this request. -/
def Refuses (pools : List ResourcePool) (online : List Bool) (option : ResourceSpec) (node : ℕ) :
    Prop :=
  ∀ pool, pools[node]? = some pool → online[node]? = some true →
    pool.tryReserve option = .ok (none, pool)

theorem Refuses.cons {pools : List ResourcePool} {online : List Bool} {option : ResourceSpec}
    {node : ℕ} {pool : ResourcePool} {up : Bool} (h : Refuses pools online option node) :
    Refuses (pool :: pools) (up :: online) option (node + 1) := h

/-- Every node that the search passed refuses. -/
theorem reserveFrom_refuses {online : List Bool} {option : ResourceSpec} {node : ℕ}
    {pools pools' : List ResourcePool} {found : Option (ℕ × Allocation)}
    (h : reserveFrom online option node pools = .ok (found, pools')) (n : ℕ)
    (hn : ∀ member ∈ found, node + n < member.1) :
    Refuses pools (online.drop node) option n := by
  induction pools generalizing node found pools' n with
  | nil => exact fun pool hpool => by cases hpool
  | cons pool pools ih =>
    rcases reserveFrom_cons_eq_ok h with
      ⟨alloc, pool', -, -, rfl, -⟩ | ⟨up, rest, hup, hres, hrest, -⟩
    · exact absurd (hn _ rfl) (by omega)
    · obtain ⟨hlt, rfl⟩ := List.getElem?_eq_some_iff.1 hup
      rw [List.drop_eq_getElem_cons hlt]
      cases n with
      | zero =>
        intro p hp honline
        obtain rfl := Option.some.inj hp
        exact hres (Option.some.inj honline)
      | succ n =>
        refine Refuses.cons (ih hrest n fun member hmem => ?_)
        have := hn member hmem
        omega

/-- In the order of options, then nodes, this option on this node is the first that is taken. -/
structure FirstTaken (pools : List ResourcePool) (online : List Bool) (options : List ResourceSpec)
    (option : ResourceSpec) (node : ℕ) : Prop where
  earlier : ∃ before after, options = before ++ option :: after ∧
    ∀ other ∈ before, ∀ n, Refuses pools online other n
  first : ∀ n < node, Refuses pools online option n

theorem reserveAny_first {online : List Bool} {options : List ResourceSpec}
    {pools pools' : List ResourcePool} {found : Option (ℕ × Allocation)}
    (h : reserveAny pools online options = .ok (found, pools')) :
    (found = none ∧ pools' = pools ∧ ∀ option ∈ options, ∀ n, Refuses pools online option n) ∨
      ∃ node alloc option, found = some (node, alloc) ∧
        PlacedOn pools online option node alloc pools' ∧
        FirstTaken pools online options option node := by
  induction options generalizing pools with
  | nil => cases h; exact .inl ⟨rfl, rfl, by simp⟩
  | cons option options ih =>
    simp only [reserveAny, Exec.bind_eq_ok, Prod.exists] at h
    obtain ⟨found', pools'', hfrom, h⟩ := h
    have hrefuses := reserveFrom_refuses hfrom
    rw [List.drop_zero] at hrefuses
    rcases reserveFrom_eq_ok hfrom with ⟨rfl, rfl⟩ | ⟨node, alloc, rfl, hplaced⟩
    · have hall : ∀ n, Refuses pools'' online option n := fun n => hrefuses n (by simp)
      rcases ih h with ⟨rfl, rfl, hnone⟩ |
        ⟨node, alloc, taken, rfl, hplaced, ⟨before, after, rfl, hbefore⟩, hfirst⟩
      · exact .inl ⟨rfl, rfl, List.forall_mem_cons.2 ⟨hall, hnone⟩⟩
      · exact .inr ⟨node, alloc, taken, rfl, hplaced,
          ⟨option :: before, after, rfl, List.forall_mem_cons.2 ⟨hall, hbefore⟩⟩, hfirst⟩
    · simp only [Exec.pure_eq_ok, Prod.mk.injEq] at h
      obtain ⟨rfl, rfl⟩ := h
      rw [List.drop_zero] at hplaced
      rw [Nat.zero_add] at hrefuses ⊢
      refine .inr ⟨node, alloc, option, rfl, hplaced, ⟨[], options, rfl, by simp⟩, fun n hn => ?_⟩
      exact hrefuses n fun member hmem => by
        obtain rfl := Option.some.inj hmem
        simpa using hn

/-- The options come with ever more cards. -/
theorem ResourceSpec.gpuOptions_pairwise (spec : ResourceSpec) :
    spec.gpuOptions.Pairwise fun option option' => option.gpu < option'.gpu := by
  unfold gpuOptions
  split
  · exact List.pairwise_singleton _ _
  · rw [List.pairwise_map]
    exact (by decide : gpuCounts.Pairwise (· < ·))

/-- No option with fewer cards is taken anywhere. -/
theorem FirstTaken.fewest {pools : List ResourcePool} {online : List Bool}
    {spec option other : ResourceSpec} {node : ℕ}
    (h : FirstTaken pools online spec.gpuOptions option node) (hother : other ∈ spec.gpuOptions)
    (hgpu : other.gpu < option.gpu) (n : ℕ) : Refuses pools online other n := by
  obtain ⟨before, after, hsplit, hbefore⟩ := h.earlier
  have hpairwise := spec.gpuOptions_pairwise
  rw [hsplit] at hother hpairwise
  rcases List.mem_append.1 hother with hmem | hmem
  · exact hbefore other hmem n
  · have hcons := (List.pairwise_append.1 hpairwise).2.1
    rcases List.mem_cons.1 hmem with rfl | hmem
    · exact absurd hgpu (UInt32.lt_irrefl _)
    · exact absurd hgpu (UInt32.lt_asymm ((List.pairwise_cons.1 hcons).1 other hmem))

/-! ### Members one after the other -/

/-- One member was placed, on the first option and node that take it; its cards are this node's,
fit, and hold the member's VRAM together. -/
structure PlacedMember (pools : List ResourcePool) (online : List Bool) (spec : ResourceSpec)
    (node : ℕ) (alloc : Allocation) (pools' : List ResourcePool) : Prop where
  intro ::
  option : ∃ option ∈ spec.gpuOptions, PlacedOn pools online option node alloc pools' ∧
    FirstTaken pools online spec.gpuOptions option node ∧
    (∀ other ∈ spec.gpuOptions, other.gpu < option.gpu → ∀ n, Refuses pools online other n) ∧
    alloc.gpus.length = option.gpu.toNat ∧
    ∃ pool, pools[node]? = some pool ∧ CardsFit pool option.vramPerGpu alloc.gpus
  vram : spec.vramMb.toNat ≤ (alloc.gpus.map fun card => card.vramMb.toNat).sum

/-- The members are placed in order, each on the pools as the ones before left them. -/
inductive PlacedAll (online : List Bool) : List ResourcePool → List ResourceSpec →
    List (ℕ × Allocation) → List ResourcePool → Prop
  | nil (pools : List ResourcePool) : PlacedAll online pools [] [] pools
  | cons {pools mid pools' : List ResourcePool} {spec : ResourceSpec} {members : List ResourceSpec}
      {node : ℕ} {alloc : Allocation} {placement : List (ℕ × Allocation)} :
      PlacedMember pools online spec node alloc mid →
      PlacedAll online mid members placement pools' →
      PlacedAll online pools (spec :: members) ((node, alloc) :: placement) pools'

theorem PlacedAll.length {online : List Bool} {pools pools' : List ResourcePool}
    {members : List ResourceSpec} {placement : List (ℕ × Allocation)}
    (h : PlacedAll online pools members placement pools') : placement.length = members.length := by
  induction h with
  | nil => rfl
  | cons _ _ ih => rw [List.length_cons, List.length_cons, ih]

/-- What is booked on top of `pools₀`: these allocations and nothing else. -/
structure Taken (pools₀ pools : List ResourcePool) (placed : Multiset (ℕ × Allocation)) : Prop where
  length : pools.length = pools₀.length
  inRange : ∀ member ∈ placed, member.1 < pools.length
  pool : ∀ node pool₀ pool, pools₀[node]? = some pool₀ → pools[node]? = some pool →
    pool₀.Alike pool ∧
      Ledger.Balanced pool₀.free pool.free ((heldOn node placed).map Allocation.amount) ∧
      ∃ held, Books pool (heldOn node placed + held)

namespace Taken

variable {pools₀ pools pools' : List ResourcePool} {placed : Multiset (ℕ × Allocation)} {node : ℕ}
  {alloc : Allocation}

theorem nothing (h : ∀ pool ∈ pools, ∃ held, Books pool held) : Taken pools pools 0 where
  length := rfl
  inRange := by simp
  pool node pool₀ pool h₀ hpool := by
    obtain rfl := Option.some.inj (h₀.symm.trans hpool)
    obtain ⟨held, hbooks⟩ := h pool₀ (List.mem_of_getElem? hpool)
    exact ⟨.refl _, Ledger.balanced_zero _, held, by simpa using hbooks⟩

/-- With nothing booked on top, the pools are the ones from before. -/
theorem eq (h : Taken pools₀ pools 0) : pools = pools₀ := by
  refine List.ext_getElem h.length fun node hnode hnode₀ => ?_
  obtain ⟨halike, hfree, -⟩ := h.pool node _ _ (List.getElem?_eq_getElem hnode₀)
    (List.getElem?_eq_getElem hnode)
  exact halike.eq_of_free_eq hfree.restored

theorem books (h : Taken pools₀ pools placed) (pool : ResourcePool) (hmem : pool ∈ pools) :
    ∃ held, Books pool held := by
  obtain ⟨node, hpool⟩ := List.mem_iff_getElem?.1 hmem
  have hlt := (List.getElem?_eq_some_iff.1 hpool).1
  obtain ⟨-, -, held, hbooks⟩ :=
    h.pool node _ pool (List.getElem?_eq_getElem (h.length ▸ hlt)) hpool
  exact ⟨_, hbooks⟩

theorem placedOn (h : Taken pools₀ pools placed) {online : List Bool} {option : ResourceSpec}
    (hplaced : PlacedOn pools online option node alloc pools') :
    Taken pools₀ pools' ((node, alloc) ::ₘ placed) := by
  obtain ⟨-, pool, pool', hpool, hres, rfl⟩ := hplaced
  obtain ⟨hnone, -⟩ | ⟨_, gpus, halloc, hres, -⟩ := ResourcePool.tryReserve_eq_ok hres
  · cases hnone
  obtain rfl := Option.some.inj halloc
  have hlt := (List.getElem?_eq_some_iff.1 hpool).1
  refine ⟨by rw [List.length_set, h.length], ?_, fun n pool₀ p h₀ hp => ?_⟩
  · rw [List.length_set]
    exact Multiset.forall_mem_cons.2 ⟨hlt, h.inRange⟩
  · rw [heldOn_cons]
    by_cases hn : node = n
    · subst hn
      rw [List.getElem?_set_self hlt] at hp
      obtain rfl := Option.some.inj hp
      obtain ⟨halike, hfree, held, hbooks⟩ := h.pool node pool₀ pool h₀ hpool
      rw [if_pos rfl]
      refine ⟨halike.trans hres.alike, ?_, held, ?_⟩
      · rw [Multiset.map_cons]
        exact hfree.take hres.free
      · rw [Multiset.cons_add]
        exact hbooks.reserved hres
    · rw [List.getElem?_set_ne hn] at hp
      rw [if_neg hn]
      exact h.pool n pool₀ p h₀ hp

/-- The last reservation is undone. -/
theorem releaseOn (h : Taken pools₀ pools ((node, alloc) ::ₘ placed)) :
    ∃ pools', Roster.releaseOn pools (node, alloc) = .ok pools' ∧ Taken pools₀ pools' placed := by
  have hlt : node < pools.length := h.inRange _ (Multiset.mem_cons_self _ _)
  have hpool : pools[node]? = some pools[node] := List.getElem?_eq_getElem hlt
  have h₀ : pools₀[node]? = some (pools₀.get ⟨node, h.length ▸ hlt⟩) := List.getElem?_eq_getElem _
  obtain ⟨halike, hfree, held, hbooks⟩ := h.pool node _ _ h₀ hpool
  rw [heldOn_cons, if_pos rfl] at hfree hbooks
  rw [Multiset.map_cons] at hfree
  rw [Multiset.cons_add] at hbooks
  obtain ⟨pool', hrel⟩ := hbooks.release_ok
  have hreleased := (ResourcePool.release_eq_ok.1 hrel).2
  refine ⟨pools.set node pool', Exec.update_eq_ok.2 ⟨_, pool', hpool, hrel, rfl⟩, ?_, ?_, ?_⟩
  · rw [List.length_set, h.length]
  · rw [List.length_set]
    exact (Multiset.forall_mem_cons.1 h.inRange).2
  · intro n pool p hn hp
    by_cases hne : node = n
    · subst hne
      rw [List.getElem?_set_self hlt] at hp
      obtain rfl := Option.some.inj hp
      obtain rfl := Option.some.inj (h₀.symm.trans hn)
      exact ⟨halike.trans hreleased.1, hfree.give hreleased.2, held, hbooks.released hrel⟩
    · rw [List.getElem?_set_ne hne] at hp
      have hother := h.pool n pool p hn hp
      rwa [heldOn_cons, if_neg hne] at hother

/-- All reservations are undone: every pool is as it was. -/
theorem releaseAll {placed : List (ℕ × Allocation)} (h : Taken pools₀ pools placed) :
    placed.foldlM Roster.releaseOn pools = .ok pools₀ := by
  induction placed generalizing pools with
  | nil => exact congrArg Except.ok h.eq
  | cons member placed ih =>
    rw [← Multiset.cons_coe] at h
    obtain ⟨mid, hmid, hrest⟩ := h.releaseOn
    rw [List.foldlM_cons, hmid, Exec.ok_bind, ih hrest]

/-- The next member: placed on top of the others, or no option is taken on any node. -/
theorem next (h : Taken pools₀ pools placed) {online : List Bool}
    (honline : online.length = pools₀.length) (spec : ResourceSpec) :
    (reserveAny pools online spec.gpuOptions = .ok (none, pools) ∧
        ∀ option ∈ spec.gpuOptions, ∀ n, Refuses pools online option n) ∨
      ∃ node alloc pools',
        reserveAny pools online spec.gpuOptions = .ok (some (node, alloc), pools') ∧
        PlacedMember pools online spec node alloc pools' ∧
        Taken pools₀ pools' ((node, alloc) ::ₘ placed) := by
  obtain ⟨⟨found, pools'⟩, hany⟩ := PoolsAccounts.reserveAny_ok spec.gpuOptions h.books
    (show pools.length ≤ online.length by rw [honline, h.length])
  rcases reserveAny_first hany with ⟨rfl, rfl, hnone⟩ |
    ⟨node, alloc, option, rfl, hplaced, hfirst⟩
  · exact .inl ⟨hany, hnone⟩
  · have hoption : option ∈ spec.gpuOptions := by
      obtain ⟨before, after, hsplit, -⟩ := hfirst.earlier
      rw [hsplit]
      exact List.mem_append_right _ List.mem_cons_self
    obtain ⟨pool, pool', hpool, hres, -⟩ := hplaced.reserved
    obtain ⟨held, hbooks⟩ := h.books pool (List.mem_of_getElem? hpool)
    obtain ⟨hfit, hcount⟩ := ResourcePool.cardsFit_of_tryReserve hbooks.distinct hres
    refine .inr ⟨node, alloc, pools', hany, ⟨⟨option, hoption, hplaced, hfirst, fun other =>
      hfirst.fewest, hcount, pool, hpool, hfit⟩, ?_⟩, h.placedOn hplaced⟩
    calc spec.vramMb.toNat ≤ option.gpu.toNat * option.vramPerGpu.toNat :=
          ResourceSpec.vramMb_le hoption
      _ = alloc.gpus.length * option.vramPerGpu.toNat := by rw [hcount]
      _ ≤ _ := hfit.mul_le_sum

end Taken

/-! ### The whole call -/

/-- A call places all the members that are left, or ends with the pools it began with. -/
theorem placeMembers_firstFit {pools₀ pools : List ResourcePool} {placed : List (ℕ × Allocation)}
    (h : Taken pools₀ pools placed) {online : List Bool} (honline : online.length = pools₀.length)
    (members : List ResourceSpec) :
    placeMembers pools online placed members = .ok (none, pools₀) ∨
      ∃ placement pools', placeMembers pools online placed members =
          .ok (some (placed ++ placement), pools') ∧
        PlacedAll online pools members placement pools' := by
  induction members generalizing pools placed with
  | nil => exact .inr ⟨[], pools, by rw [List.append_nil]; rfl, .nil pools⟩
  | cons spec members ih =>
    rcases h.next honline spec with ⟨hany, -⟩ | ⟨node, alloc, mid, hany, hmember, hmid⟩
    · refine .inl ?_
      rw [placeMembers, hany, Exec.ok_bind]
      exact Exec.bind_eq_ok.2 ⟨pools₀, h.releaseAll, rfl⟩
    · have hstep : placeMembers pools online placed (spec :: members) =
          placeMembers mid online (placed ++ [(node, alloc)]) members := by
        rw [placeMembers, hany, Exec.ok_bind]
      have hperm : (↑(placed ++ [(node, alloc)]) : Multiset (ℕ × Allocation)) =
          (node, alloc) ::ₘ ↑placed := Multiset.coe_eq_coe.2 (List.perm_append_singleton _ _)
      rcases ih (hperm ▸ hmid) with hnone | ⟨placement, pools', hsome, hall⟩
      · exact .inl (hstep.trans hnone)
      · refine .inr ⟨(node, alloc) :: placement, pools', ?_, .cons hmember hall⟩
        rw [hstep, hsome, List.append_assoc]
        rfl

/-- **First fit, all or nothing.**  On a miss every pool is as it was; otherwise every member, in
order, has the first option and node that take it, on whole free cards that hold its VRAM.  A lone
member is missed only if no online node admits any of its options. -/
theorem place_firstFit {pools : List ResourcePool}
    (hpools : ∀ pool ∈ pools, ∃ held, Books pool held) {online : List Bool}
    (honline : online.length = pools.length) (members : List ResourceSpec) :
    ∃ found pools', place pools online members = .ok (found, pools') ∧
      (found = none → pools' = pools) ∧
      (∀ placement, found = some placement → placement.length = members.length ∧
        PlacedAll online pools members placement pools') ∧
      ∀ spec, members = [spec] → found = none → ∀ option ∈ spec.gpuOptions,
        ∀ (node : ℕ) (pool : ResourcePool), pools[node]? = some pool →
          online[node]? = some true → pool.canAdmit option = .ok false := by
  have hnothing : Taken pools pools ((↑([] : List (ℕ × Allocation)) : Multiset _)) :=
    .nothing hpools
  have hlone : ∀ spec, members = [spec] → place pools online members = .ok (none, pools) →
      ∀ option ∈ spec.gpuOptions, ∀ (node : ℕ) (pool : ResourcePool), pools[node]? = some pool →
        online[node]? = some true → pool.canAdmit option = .ok false := by
    rintro spec rfl hmiss option hoption node pool hpool hup
    obtain ⟨held, hbooks⟩ := hpools pool (List.mem_of_getElem? hpool)
    rcases hnothing.next honline spec with ⟨-, hrefuses⟩ | ⟨n, alloc, pools', hany, -, -⟩
    · exact ResourcePool.canAdmit_of_tryReserve (hrefuses option hoption node pool hpool hup)
        hbooks.inRange
    · rw [place, placeMembers, hany, Exec.ok_bind] at hmiss
      cases hmiss
  rcases placeMembers_firstFit hnothing honline members with
    hnone | ⟨placement, pools', hsome, hall⟩
  · exact ⟨none, pools, hnone, fun _ => rfl, fun _ h => (Option.some_ne_none _ h.symm).elim,
      fun spec hspec _ => hlone spec hspec hnone⟩
  · refine ⟨some placement, pools', hsome, fun h => (Option.some_ne_none _ h).elim, ?_,
      fun _ _ h => (Option.some_ne_none _ h).elim⟩
    rintro _ ⟨⟩
    exact ⟨hall.length, hall⟩

/-- Two 24 GB cards on the first node, one 80 GB card on the second. -/
def unevenLab : List ResourcePool :=
  [.new ⟨8, 8000, [⟨0, "fake", 24000, ""⟩, ⟨1, "fake", 24000, ""⟩]⟩,
    .new ⟨8, 8000, [⟨0, "fake", 80000, ""⟩]⟩]

/-- A job that asks for 40 GB only: one card on the second node beats two on the first. -/
theorem unevenLab_firstFit :
    ∃ pools', place unevenLab [true, true] [⟨1, 512, 0, 40000⟩] =
        .ok (some [(1, ⟨1, 512, [⟨0, 80000⟩]⟩)], pools') ∧
      PlacedAll [true, true] unevenLab [⟨1, 512, 0, 40000⟩] [(1, ⟨1, 512, [⟨0, 80000⟩]⟩)]
        pools' := by
  have hbooks : ∀ pool ∈ unevenLab, ∃ held, Books pool held := by
    intro pool hpool
    have hnew : pool = .new pool.total ∧ pool.total.Indexed := by
      revert pool; decide
    exact ⟨0, hnew.1 ▸ .new hnew.2.numbered⟩
  obtain ⟨found, pools', hplace, -, hsome, -⟩ :=
    place_firstFit hbooks (show [true, true].length = unevenLab.length from rfl)
      [⟨1, 512, 0, 40000⟩]
  have hfound : (place unevenLab [true, true] [⟨1, 512, 0, 40000⟩]).map Prod.fst =
      .ok (some [(1, ⟨1, 512, [⟨0, 80000⟩]⟩)]) := by decide
  rw [hplace] at hfound
  obtain rfl := Except.ok.inj hfound
  exact ⟨pools', hplace, (hsome _ rfl).2⟩

end Roster
