import Roster.Resource.Accounts

/-!
# Placement over several nodes

`place` puts each member of a job on the first online node, in node order, whose pool reserves it,
trying the member's options in turn; on a miss it undoes its reservations.  A controller's pools and
what is out on all its nodes are related by `PoolsAccounts`, node by node the accounts of that
node's pool.
-/

namespace Roster

/-! ### The search -/

/-- The first node from `node` on that is online and reserves `option`. -/
def reserveFrom (online : List Bool) (option : ResourceSpec) (node : ℕ) :
    List ResourcePool → Exec (Option (ℕ × Allocation) × List ResourcePool)
  | [] => .ok (none, [])
  | pool :: pools => do
    let up ← Exec.index online node
    if up then
      let (found, pool) ← pool.tryReserve option
      match found with
      | some alloc => return (some (node, alloc), pool :: pools)
      | none =>
        let (found, pools) ← reserveFrom online option (node + 1) pools
        return (found, pool :: pools)
    else
      let (found, pools) ← reserveFrom online option (node + 1) pools
      return (found, pool :: pools)

/-- The first option that some node reserves. -/
def reserveAny (pools : List ResourcePool) (online : List Bool) :
    List ResourceSpec → Exec (Option (ℕ × Allocation) × List ResourcePool)
  | [] => .ok (none, pools)
  | option :: options => do
    let (found, pools) ← reserveFrom online option 0 pools
    match found with
    | some member => return (some member, pools)
    | none => reserveAny pools online options

/-- `pools[node].release(alloc)`. -/
def releaseOn (pools : List ResourcePool) (member : ℕ × Allocation) : Exec (List ResourcePool) :=
  Exec.update pools member.1 fun pool => pool.release member.2

/-- Place the members that are left; `placed` are this call's reservations so far. -/
def placeMembers (pools : List ResourcePool) (online : List Bool)
    (placed : List (ℕ × Allocation)) :
    List ResourceSpec → Exec (Option (List (ℕ × Allocation)) × List ResourcePool)
  | [] => .ok (some placed, pools)
  | spec :: members => do
    let (found, pools) ← reserveAny pools online spec.gpuOptions
    match found with
    | some member => placeMembers pools online (placed ++ [member]) members
    | none =>
      let pools ← placed.foldlM releaseOn pools
      return (none, pools)

/-- `place`: first-fit each member over the online nodes, all or nothing. -/
def place (pools : List ResourcePool) (online : List Bool) (members : List ResourceSpec) :
    Exec (Option (List (ℕ × Allocation)) × List ResourcePool) :=
  placeMembers pools online [] members

/-- One node's pool reserved `alloc` for `option`; the others are as they were. -/
structure PlacedOn (pools : List ResourcePool) (online : List Bool) (option : ResourceSpec)
    (node : ℕ) (alloc : Allocation) (pools' : List ResourcePool) : Prop where
  intro ::
  online : online[node]? = some true
  reserved : ∃ pool pool', pools[node]? = some pool ∧
    pool.tryReserve option = .ok (some alloc, pool') ∧ pools' = pools.set node pool'

theorem PlacedOn.cons {pools pools' : List ResourcePool} {online : List Bool}
    {option : ResourceSpec} {node : ℕ} {alloc : Allocation} (pool : ResourcePool) {up : Bool}
    (h : PlacedOn pools online option node alloc pools') :
    PlacedOn (pool :: pools) (up :: online) option (node + 1) alloc (pool :: pools') := by
  obtain ⟨hup, p, p', hp, hres, rfl⟩ := h
  exact ⟨hup, p, p', hp, hres, rfl⟩

/-- What the search does at one node: it reserves there, or leaves the pool alone and goes on. -/
theorem reserveFrom_cons_eq_ok {online : List Bool} {option : ResourceSpec} {node : ℕ}
    {pool : ResourcePool} {pools pools' : List ResourcePool} {found : Option (ℕ × Allocation)}
    (h : reserveFrom online option node (pool :: pools) = .ok (found, pools')) :
    (∃ alloc pool', online[node]? = some true ∧
      pool.tryReserve option = .ok (some alloc, pool') ∧ found = some (node, alloc) ∧
        pools' = pool' :: pools) ∨
      ∃ up rest, online[node]? = some up ∧
        (up = true → pool.tryReserve option = .ok (none, pool)) ∧
        reserveFrom online option (node + 1) pools = .ok (found, rest) ∧ pools' = pool :: rest := by
  simp only [reserveFrom, Exec.bind_eq_ok, Exec.index_eq_ok] at h
  obtain ⟨up, hup, h⟩ := h
  split at h
  · next htrue =>
    simp only [Exec.bind_eq_ok] at h
    obtain ⟨⟨reserved, pool'⟩, hres, h⟩ := h
    cases reserved with
    | some alloc =>
      simp only [Exec.pure_eq_ok, Prod.mk.injEq] at h
      obtain ⟨rfl, rfl⟩ := h
      exact .inl ⟨alloc, pool', htrue ▸ hup, hres, rfl, rfl⟩
    | none =>
      simp only [Exec.bind_eq_ok, Exec.pure_eq_ok, Prod.mk.injEq, Prod.exists] at h
      obtain ⟨found', rest, h, rfl, rfl⟩ := h
      obtain ⟨-, rfl⟩ | ⟨_, _, hsome, -⟩ := ResourcePool.tryReserve_eq_ok hres
      · exact .inr ⟨up, rest, hup, fun _ => hres, h, rfl⟩
      · cases hsome
  · next hdown =>
    simp only [Exec.bind_eq_ok, Exec.pure_eq_ok, Prod.mk.injEq, Prod.exists] at h
    obtain ⟨found', rest, h, rfl, rfl⟩ := h
    exact .inr ⟨up, rest, hup, fun htrue => absurd htrue hdown, h, rfl⟩

theorem reserveFrom_eq_ok {online : List Bool} {option : ResourceSpec} {node : ℕ}
    {pools pools' : List ResourcePool} {found : Option (ℕ × Allocation)}
    (h : reserveFrom online option node pools = .ok (found, pools')) :
    (found = none ∧ pools' = pools) ∨ ∃ n alloc, found = some (node + n, alloc) ∧
      PlacedOn pools (online.drop node) option n alloc pools' := by
  induction pools generalizing node found pools' with
  | nil => cases h; exact .inl ⟨rfl, rfl⟩
  | cons pool pools ih =>
    rcases reserveFrom_cons_eq_ok h with
      ⟨alloc, pool', hup, hres, rfl, rfl⟩ | ⟨up, rest, hup, -, hrest, rfl⟩
    · refine .inr ⟨0, alloc, rfl, ?_, pool, pool', rfl, hres, rfl⟩
      rw [List.getElem?_drop, Nat.add_zero, hup]
    · rcases ih hrest with ⟨rfl, rfl⟩ | ⟨n, alloc, rfl, hplaced⟩
      · exact .inl ⟨rfl, rfl⟩
      · obtain ⟨hlt, rfl⟩ := List.getElem?_eq_some_iff.1 hup
        refine .inr ⟨n + 1, alloc, by rw [Nat.add_assoc, Nat.add_comm 1], ?_⟩
        rw [List.drop_eq_getElem_cons hlt]
        exact hplaced.cons pool

theorem reserveAny_eq_ok {online : List Bool} {options : List ResourceSpec}
    {pools pools' : List ResourcePool} {found : Option (ℕ × Allocation)}
    (h : reserveAny pools online options = .ok (found, pools')) :
    (found = none ∧ pools' = pools) ∨ ∃ node alloc, found = some (node, alloc) ∧
      ∃ option ∈ options, PlacedOn pools online option node alloc pools' := by
  induction options generalizing pools with
  | nil => cases h; exact .inl ⟨rfl, rfl⟩
  | cons option options ih =>
    simp only [reserveAny, Exec.bind_eq_ok, Prod.exists] at h
    obtain ⟨found', pools'', hfrom, h⟩ := h
    rcases reserveFrom_eq_ok hfrom with ⟨rfl, rfl⟩ | ⟨node, alloc, rfl, hplaced⟩
    · rcases ih h with hnone | ⟨node, alloc, hsome, option', hmem, hplaced⟩
      · exact .inl hnone
      · exact .inr ⟨node, alloc, hsome, option', List.mem_cons_of_mem _ hmem, hplaced⟩
    · simp only [Exec.pure_eq_ok, Prod.mk.injEq] at h
      obtain ⟨rfl, rfl⟩ := h
      rw [Nat.zero_add, List.drop_zero] at *
      exact .inr ⟨node, alloc, rfl, option, List.mem_cons_self, hplaced⟩

/-- A job with one member: placed on one node, or the pools are as they were. -/
theorem place_single_eq_ok {online : List Bool} {spec : ResourceSpec}
    {pools pools' : List ResourcePool} {found : Option (List (ℕ × Allocation))}
    (h : place pools online [spec] = .ok (found, pools')) :
    (found = none ∧ pools' = pools) ∨ ∃ node alloc, found = some [(node, alloc)] ∧
      ∃ option ∈ spec.gpuOptions, PlacedOn pools online option node alloc pools' := by
  simp only [place, placeMembers, Exec.bind_eq_ok, Prod.exists] at h
  obtain ⟨member, pools'', hany, h⟩ := h
  rcases reserveAny_eq_ok hany with ⟨rfl, rfl⟩ | ⟨node, alloc, rfl, hplaced⟩
  · simp only [List.foldlM_nil, Exec.bind_eq_ok, Exec.pure_eq_ok, Prod.mk.injEq] at h
    obtain ⟨_, rfl, rfl, rfl⟩ := h
    exact .inl ⟨rfl, rfl⟩
  · simp only [List.nil_append, Except.ok.injEq, Prod.mk.injEq] at h
    obtain ⟨rfl, rfl⟩ := h
    exact .inr ⟨node, alloc, rfl, hplaced⟩

/-! ### What is out on each node -/

/-- The allocations of `held` that are on `node`. -/
def heldOn (node : ℕ) (held : Multiset (ℕ × Allocation)) : Multiset Allocation :=
  (held.filter fun member => member.1 = node).map Prod.snd

@[simp] theorem heldOn_zero (node : ℕ) : heldOn node 0 = 0 := rfl

theorem heldOn_cons (node n : ℕ) (alloc : Allocation) (held : Multiset (ℕ × Allocation)) :
    heldOn node ((n, alloc) ::ₘ held) =
      if n = node then alloc ::ₘ heldOn node held else heldOn node held := by
  unfold heldOn
  by_cases h : n = node
  · simp [h]
  · simp [h]

/-- Every node's pool is over its inventory and agrees with what is out on that node. -/
structure PoolsAccounts (inventories : List SystemResources) (pools : List ResourcePool)
    (held : Multiset (ℕ × Allocation)) : Prop where
  totals : pools.map ResourcePool.total = inventories
  inRange : ∀ member ∈ held, member.1 < pools.length
  accounts : ∀ node pool, pools[node]? = some pool → Accounts pool (heldOn node held)

namespace PoolsAccounts

variable {inventories : List SystemResources} {pools pools' : List ResourcePool}
  {held : Multiset (ℕ × Allocation)} {node : ℕ} {alloc : Allocation}

/-- Pools built from inventories numbered by position. -/
theorem new (h : ∀ resources ∈ inventories, resources.Indexed) :
    PoolsAccounts inventories (inventories.map .new) 0 where
  totals := by
    rw [List.map_map]
    exact (List.map_congr_left fun _ _ => rfl).trans (List.map_id _)
  inRange := by simp
  accounts := by
    intro node pool hpool
    obtain ⟨resources, hres, rfl⟩ := List.mem_map.1 (List.mem_of_getElem? hpool)
    exact accounts_new (h resources hres)

/-- One node's pool and what is out there changed together. -/
theorem set (h : PoolsAccounts inventories pools held) {held' : Multiset (ℕ × Allocation)}
    {pool pool' : ResourcePool} (hpool : pools[node]? = some pool)
    (htotal : pool'.total = pool.total) (hnode : Accounts pool' (heldOn node held'))
    (hother : ∀ n, n ≠ node → heldOn n held' = heldOn n held)
    (hrange : ∀ member ∈ held', member.1 < pools.length) :
    PoolsAccounts inventories (pools.set node pool') held' where
  totals := by
    obtain ⟨hlt, rfl⟩ := List.getElem?_eq_some_iff.1 hpool
    rw [← h.totals, List.map_set, htotal]
    exact List.ext_getElem (by simp) fun i _ _ => by
      rw [List.getElem_set]; split <;> simp_all
  inRange := by simpa using hrange
  accounts := by
    intro n pool hpool
    rw [List.getElem?_set] at hpool
    split at hpool
    · next heq =>
      subst heq
      split at hpool
      · obtain rfl := Option.some.inj hpool; exact hnode
      · cases hpool
    · next hne => rw [hother n (Ne.symm hne)]; exact h.accounts n pool hpool

theorem reserved (h : PoolsAccounts inventories pools held) {pool pool' : ResourcePool}
    {gpus : List GpuInfo} (hpool : pools[node]? = some pool)
    (hres : pool.Reserved gpus alloc pool') :
    PoolsAccounts inventories (pools.set node pool') ((node, alloc) ::ₘ held) := by
  refine h.set hpool hres.alike.total ?_ (fun n hn => ?_) ?_
  · rw [heldOn_cons, if_pos rfl]
    exact (h.accounts node pool hpool).reserved hres
  · rw [heldOn_cons, if_neg hn.symm]
  · exact Multiset.forall_mem_cons.2 ⟨(List.getElem?_eq_some_iff.1 hpool).1, h.inRange⟩

theorem placedOn (h : PoolsAccounts inventories pools held) {online : List Bool}
    {option : ResourceSpec} (hplaced : PlacedOn pools online option node alloc pools') :
    PoolsAccounts inventories pools' ((node, alloc) ::ₘ held) := by
  obtain ⟨-, pool, pool', hpool, hres, rfl⟩ := hplaced
  obtain ⟨hnone, -⟩ | ⟨_, gpus, halloc, hres, -⟩ := ResourcePool.tryReserve_eq_ok hres
  · cases hnone
  · obtain rfl := Option.some.inj halloc
    exact h.reserved hpool hres

/-- An allocation that is out on a node can be given back there. -/
theorem releaseOn_ok (h : PoolsAccounts inventories pools ((node, alloc) ::ₘ held)) :
    ∃ pools', releaseOn pools (node, alloc) = .ok pools' := by
  have hlt : node < pools.length := h.inRange _ (Multiset.mem_cons_self _ _)
  have hacc := h.accounts node _ (List.getElem?_eq_getElem hlt)
  rw [heldOn_cons, if_pos rfl] at hacc
  obtain ⟨pool', hok⟩ := hacc.toBooks.release_ok
  exact ⟨_, Exec.update_eq_ok.2 ⟨_, pool', List.getElem?_eq_getElem hlt, hok, rfl⟩⟩

theorem releasedOn (h : PoolsAccounts inventories pools ((node, alloc) ::ₘ held))
    (hok : releaseOn pools (node, alloc) = .ok pools') :
    PoolsAccounts inventories pools' held := by
  obtain ⟨pool, pool', hpool, hrel, rfl⟩ := Exec.update_eq_ok.1 hok
  have hacc := h.accounts node pool hpool
  rw [heldOn_cons, if_pos rfl] at hacc
  refine h.set hpool (ResourcePool.release_eq_ok.1 hrel).2.1.total (hacc.released hrel)
    (fun n hn => ?_) (Multiset.forall_mem_cons.1 h.inRange).2
  rw [heldOn_cons, if_neg hn.symm]

/-- A list of allocations that are out can be given back one after the other. -/
theorem releaseAll_ok {α : Type} (member : α → ℕ × Allocation) {l : List α}
    (h : PoolsAccounts inventories pools (↑(l.map member) + held)) :
    ∃ pools', l.foldlM (fun pools a => releaseOn pools (member a)) pools = .ok pools' ∧
      PoolsAccounts inventories pools' held := by
  induction l generalizing pools with
  | nil => exact ⟨pools, rfl, by simpa using h⟩
  | cons a l ih =>
    rw [List.map_cons, ← Multiset.cons_coe, Multiset.cons_add] at h
    obtain ⟨mid, hmid⟩ := h.releaseOn_ok
    obtain ⟨pools', hrest, hacc⟩ := ih (h.releasedOn hmid)
    exact ⟨pools', by rw [List.foldlM_cons, hmid, Exec.ok_bind, hrest], hacc⟩

/-- Changing a node's flags leaves its accounts alone. -/
theorem setBlocked (h : PoolsAccounts inventories pools held) {pool : ResourcePool}
    {blocked : List Bool} (hpool : pools[node]? = some pool)
    (hlen : blocked.length = pool.blocked.length) :
    PoolsAccounts inventories (pools.set node { pool with blocked := blocked }) held :=
  h.set hpool rfl ((h.accounts node pool hpool).setBlocked hlen) (fun _ _ => rfl) h.inRange

theorem reserveFrom_ok {online : List Bool} (option : ResourceSpec) {n : ℕ}
    (hbooks : ∀ pool ∈ pools, ∃ held, Books pool held) (hlen : n + pools.length ≤ online.length) :
    ∃ r, reserveFrom online option n pools = .ok r := by
  induction pools generalizing n with
  | nil => exact ⟨_, rfl⟩
  | cons pool pools ih =>
    rw [List.length_cons] at hlen
    obtain ⟨⟨held, hpool⟩, hrest⟩ := List.forall_mem_cons.1 hbooks
    have hup : online[n]? = some online[n] := List.getElem?_eq_getElem (by omega)
    obtain ⟨⟨found, pools'⟩, hfrom⟩ := ih (n := n + 1) hrest (by omega)
    obtain ⟨reserved, pool', hres⟩ := hpool.tryReserve_ok option
    cases honline : online[n] with
    | false => exact ⟨_, by simp [reserveFrom, Exec.index, hup, honline, hfrom]; rfl⟩
    | true =>
      cases reserved with
      | none => exact ⟨_, by simp [reserveFrom, Exec.index, hup, honline, hfrom, hres]; rfl⟩
      | some alloc => exact ⟨_, by simp [reserveFrom, Exec.index, hup, honline, hres]; rfl⟩

theorem reserveAny_ok {online : List Bool} (options : List ResourceSpec)
    (hbooks : ∀ pool ∈ pools, ∃ held, Books pool held) (hlen : pools.length ≤ online.length) :
    ∃ r, reserveAny pools online options = .ok r := by
  induction options with
  | nil => exact ⟨_, rfl⟩
  | cons option options ih =>
    obtain ⟨⟨found, pools'⟩, hfrom⟩ :=
      reserveFrom_ok option hbooks ((Nat.zero_add _).trans_le hlen)
    rcases reserveFrom_eq_ok hfrom with ⟨rfl, rfl⟩ | ⟨n, alloc, rfl, -⟩
    · obtain ⟨r, hr⟩ := ih
      exact ⟨r, by simpa only [reserveAny, hfrom, Exec.ok_bind] using hr⟩
    · exact ⟨_, by simp only [reserveAny, hfrom, Exec.ok_bind]; rfl⟩

theorem place_single_ok (h : PoolsAccounts inventories pools held) (spec : ResourceSpec)
    {online : List Bool} (hlen : pools.length ≤ online.length) :
    ∃ r, place pools online [spec] = .ok r := by
  have hbooks : ∀ pool ∈ pools, ∃ held, Books pool held := fun pool hpool =>
    have ⟨n, hn⟩ := List.mem_iff_getElem?.1 hpool
    ⟨_, (h.accounts n pool hn).toBooks⟩
  obtain ⟨⟨found, pools'⟩, hany⟩ := reserveAny_ok spec.gpuOptions hbooks hlen
  cases found with
  | none => exact ⟨_, by simp [place, placeMembers, hany]; rfl⟩
  | some member => exact ⟨_, by simp [place, placeMembers, hany]; rfl⟩

end PoolsAccounts

end Roster
