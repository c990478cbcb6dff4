import Roster.Daemon.Recover
import Roster.Scheduler.Held
import Roster.Scheduler.Jobs

/-!
# Which cards get work

A check decides from the readings which cards are blocked, and the ticks until the next check hand
out what is not.  A card that is booked during the check is judged leniently: it is blocked only if
it is quarantined, for what is on it may stay.  So a card that was never tested is handed out after
all when a job held it during the check and gives it back before the next one
(`takenBack_handsOutUntested`): jobs taken back after a restart hold such cards.

Where every card that a job holds during a check is shown tested or quarantined, and every card has
a reading (`ChecksJudgeHeld`), only qualified cards get work (`qualified_only`).  The invariant is
`Settled`: a card that is not blocked is shown qualified, or it is booked by something that stays
until the next check.
-/

namespace Roster

/-! ### Slots that stay as they are -/

namespace ResourcePool

variable {pool pool' : ResourcePool} {alloc : Allocation} {i : ℕ}

theorem Alike.slot_eq (h : Alike pool pool') (hfree : pool'.free (.vram i) = pool.free (.vram i)) :
    pool'.availableVramMb[i]? = pool.availableVramMb[i]? := by
  have hlen := h.slots
  by_cases hi : i < pool.availableVramMb.length
  · have hi' : i < pool'.availableVramMb.length := hlen ▸ hi
    rw [List.getElem?_eq_getElem hi, List.getElem?_eq_getElem hi']
    refine congrArg some (UInt64.toNat_inj.1 ?_)
    simpa [free, slotAmount, hi, hi'] using hfree
  · rw [List.getElem?_eq_none (by omega), List.getElem?_eq_none (by omega)]

theorem amount_eq_zero (h : ∀ card ∈ alloc.gpus, card.index.toNat ≠ i) :
    alloc.amount (.vram i) = 0 := booked_eq_zero h

theorem slot_eq_of_release (h : pool.release alloc = .ok pool')
    (hi : ∀ card ∈ alloc.gpus, card.index.toNat ≠ i) :
    pool'.availableVramMb[i]? = pool.availableVramMb[i]? := by
  obtain ⟨-, halike, hfree⟩ := release_eq_ok.1 h
  refine halike.slot_eq ?_
  rw [hfree, Pi.add_apply, amount_eq_zero hi, Nat.add_zero]

theorem Reserved.slot_eq {gpus : List GpuInfo} (h : Reserved pool gpus alloc pool')
    (hi : ∀ card ∈ alloc.gpus, card.index.toNat ≠ i) :
    pool'.availableVramMb[i]? = pool.availableVramMb[i]? := by
  refine h.alike.slot_eq ?_
  rw [← h.free, Pi.add_apply, amount_eq_zero hi, Nat.add_zero]

end ResourcePool

/-! ### Cards that are settled until the next check -/

/-- One of these allocations has the card. -/
def Holds (members : List (ℕ × Allocation)) (node : ℕ) (index : UInt32) : Prop :=
  ∃ member ∈ members, member.1 = node ∧ ∃ card ∈ member.2.gpus, card.index = index

theorem Holds.mono {members members' : List (ℕ × Allocation)} (hsub : members ⊆ members')
    {node : ℕ} {index : UInt32} (h : Holds members node index) : Holds members' node index :=
  have ⟨member, hmem, hrest⟩ := h
  ⟨member, hsub hmem, hrest⟩

/-- What the jobs hold. -/
def jobMembers (runs : List WorkflowRun) : List (ℕ × Allocation) :=
  (allJobs runs).flatMap fun entry => entry.2.executions.map Execution.member

/-- What a phase may give back or hand to a job before the next check. -/
def Phase.members : Phase → List (ℕ × Allocation)
  | .qualifying todo => todo.map ToQualify.member
  | .launching tasks outcomes => tasks.flatMap AdmitTask.placement ++
      outcomes.flatMap fun outcome => outcome.executions.map Execution.member
  | _ => []

/-- The flags are those of the last check. -/
def Phase.checked : Phase → Bool
  | .finishing _ _ | .blocking => false
  | _ => true

/-- The reading the node gave for this check shows the card tested since the node's daemon started,
and not quarantined. -/
def ShownQualified (views : List NodeView) (node : ℕ) (index : UInt32) : Prop :=
  ∃ view reading health, views[node]? = some view ∧ view.online = true ∧
    view.reading = some reading ∧
    (reading.find? fun health => decide (health.index = index)) = some health ∧
    health.testedAt.isSome = true ∧ health.quarantined = none

/-- A card that is not blocked is shown qualified, or booked by something that stays. -/
def CardSettled (views : List NodeView) (pool : ResourcePool) (node : ℕ)
    (members : List (ℕ × Allocation)) (gpu : GpuInfo) : Prop :=
  pool.blocked[gpu.index.toNat]? = some false → ShownQualified views node gpu.index ∨
    (pool.availableVramMb[gpu.index.toNat]? ≠ some gpu.vramMb ∧ ¬ Holds members node gpu.index)

/-- Every card with VRAM is settled, on every node; `members` may be given back. -/
structure Settled (views : List NodeView) (pools : List ResourcePool)
    (members : List (ℕ × Allocation)) : Prop where
  nodup : ∀ pool ∈ pools, (pool.total.gpus.map GpuInfo.index).Nodup
  card : ∀ node pool, pools[node]? = some pool → ∀ gpu ∈ pool.total.gpus, gpu.vramMb ≠ 0 →
    CardSettled views pool node members gpu

theorem CardSettled.mono {views : List NodeView} {pool : ResourcePool} {node : ℕ}
    {members members' : List (ℕ × Allocation)} {gpu : GpuInfo}
    (hsub : Holds members' node gpu.index → Holds members node gpu.index)
    (h : CardSettled views pool node members gpu) : CardSettled views pool node members' gpu := by
  intro hflag
  rcases h hflag with hshown | ⟨hbooked, hheld⟩
  · exact .inl hshown
  · exact .inr ⟨hbooked, fun hholds => hheld (hsub hholds)⟩

/-- The card's slot and flag are all that matters of its pool. -/
theorem CardSettled.of_eq {views : List NodeView} {pool pool' : ResourcePool} {node : ℕ}
    {members : List (ℕ × Allocation)} {gpu : GpuInfo}
    (hslot : pool'.availableVramMb[gpu.index.toNat]? = pool.availableVramMb[gpu.index.toNat]?)
    (hflag : pool'.blocked[gpu.index.toNat]? = pool.blocked[gpu.index.toNat]?)
    (h : CardSettled views pool node members gpu) : CardSettled views pool' node members gpu := by
  unfold CardSettled
  rw [hslot, hflag]
  exact h

theorem eq_of_index_eq {gpus : List GpuInfo} (h : (gpus.map GpuInfo.index).Nodup) {a b : GpuInfo}
    (ha : a ∈ gpus) (hb : b ∈ gpus) (heq : a.index = b.index) : a = b :=
  List.inj_on_of_nodup_map h ha hb heq

namespace Settled

variable {views : List NodeView} {pools pools' : List ResourcePool}
  {members members' : List (ℕ × Allocation)}

theorem mono (h : Settled views pools members) (hsub : members' ⊆ members) :
    Settled views pools members' :=
  ⟨h.nodup, fun node pool hpool gpu hgpu hvram =>
    (h.card node pool hpool gpu hgpu hvram).mono (Holds.mono hsub)⟩

/-- One node's pool changed, over the same inventory. -/
theorem set (h : Settled views pools members) {node : ℕ} {pool pool' : ResourcePool}
    (hpool : pools[node]? = some pool) (htotal : pool'.total = pool.total)
    (hcard : ∀ gpu ∈ pool.total.gpus, gpu.vramMb ≠ 0 → CardSettled views pool' node members' gpu)
    (hother : ∀ n index, n ≠ node → Holds members' n index → Holds members n index) :
    Settled views (pools.set node pool') members' where
  nodup p hp := by
    rcases List.mem_or_eq_of_mem_set hp with hp | rfl
    · exact h.nodup p hp
    · exact htotal ▸ h.nodup pool (List.mem_of_getElem? hpool)
  card n p hp gpu hgpu hvram := by
    rw [List.getElem?_set] at hp
    split at hp
    · next heq =>
      subst heq
      split at hp
      · obtain rfl := Option.some.inj hp
        exact hcard gpu (htotal ▸ hgpu) hvram
      · cases hp
    · next hne =>
      exact (h.card n p hp gpu hgpu hvram).mono (hother n _ (Ne.symm hne))

/-- Giving back an allocation that may be given back. -/
theorem release (h : Settled views pools members) {member : ℕ × Allocation}
    (hmem : member ∈ members) (hok : releaseOn pools member = .ok pools') :
    Settled views pools' members := by
  obtain ⟨pool, pool', hpool, hrel, rfl⟩ := Exec.update_eq_ok.1 hok
  have halike := (ResourcePool.release_eq_ok.1 hrel).2.1
  refine h.set hpool halike.total (fun gpu hgpu hvram => ?_) fun _ _ _ h => h
  intro hflag
  rw [halike.blocked] at hflag
  rcases h.card member.1 pool hpool gpu hgpu hvram hflag with hshown | ⟨hbooked, hheld⟩
  · exact .inl hshown
  · refine .inr ⟨?_, hheld⟩
    rwa [ResourcePool.slot_eq_of_release hrel fun card hcard heq =>
      hheld ⟨member, hmem, rfl, card, hcard, UInt32.toNat_inj.1 heq⟩]

theorem releaseAll {α : Type} {l : List α} (h : Settled views pools members)
    (member : α → ℕ × Allocation) (hsub : ∀ a ∈ l, member a ∈ members)
    (hok : l.foldlM (fun pools a => releaseOn pools (member a)) pools = .ok pools') :
    Settled views pools' members :=
  Exec.foldlM_invariant (P := fun pools => Settled views pools members)
    (fun _ a _ ha h hok => h.release (hsub a ha) hok) hok h

/-- A job gets only cards that are shown qualified, and holds them from then on. -/
theorem placedOn (h : Settled views pools members) {online : List Bool} {option : ResourceSpec}
    {node : ℕ} {alloc : Allocation} (hplaced : PlacedOn pools online option node alloc pools') :
    (∀ card ∈ alloc.gpus, ShownQualified views node card.index) ∧
      Settled views pools' ((node, alloc) :: members) := by
  obtain ⟨-, pool, pool', hpool, hres, rfl⟩ := hplaced
  obtain ⟨hnone, -⟩ | ⟨_, gpus, halloc, hreserved, -, -, -, hadmits⟩ :=
    ResourcePool.tryReserve_eq_ok hres
  · cases hnone
  obtain rfl := Option.some.inj halloc
  -- every card that is taken was free and not blocked
  have htaken : ∀ card ∈ alloc.gpus, ∃ gpu ∈ pool.total.gpus, gpu.index = card.index ∧
      pool.availableVramMb[gpu.index.toNat]? = some gpu.vramMb ∧
      ShownQualified views node gpu.index := by
    intro card hcard
    rw [← hreserved.cards] at hcard
    obtain ⟨gpu, hgpu, rfl⟩ := List.mem_map.1 hcard
    obtain ⟨hvram, hslot, hflag, -⟩ := ResourcePool.admits_iff.1 (hadmits gpu hgpu)
    have hin := hreserved.sublist.subset hgpu
    refine ⟨gpu, hin, rfl, hslot, ?_⟩
    rcases h.card node pool hpool gpu hin hvram hflag with hshown | ⟨hbooked, -⟩
    · exact hshown
    · exact absurd hslot hbooked
  refine ⟨fun card hcard => ?_, h.set hpool hreserved.alike.total (fun gpu hgpu hvram hflag => ?_)
    fun n index hn hholds => ?_⟩
  · obtain ⟨gpu, -, hindex, -, hshown⟩ := htaken card hcard
    exact hindex ▸ hshown
  · rw [hreserved.alike.blocked] at hflag
    rcases h.card node pool hpool gpu hgpu hvram hflag with hshown | ⟨hbooked, hheld⟩
    · exact .inl hshown
    -- a card that was booked is not among those taken
    · have hother : ∀ card ∈ alloc.gpus, card.index ≠ gpu.index := by
        rintro card hcard heq
        obtain ⟨taken, htaken, hindex, hslot, -⟩ := htaken card hcard
        have hsame := eq_of_index_eq (h.nodup pool (List.mem_of_getElem? hpool)) htaken hgpu
          (hindex.trans heq)
        exact hbooked (hsame ▸ hslot)
      refine .inr ⟨?_, ?_⟩
      · rwa [hreserved.slot_eq fun card hcard heq => hother card hcard (UInt32.toNat_inj.1 heq)]
      · rintro ⟨member, hmem, hnode, card, hcard, heq⟩
        rcases List.mem_cons.1 hmem with rfl | hmem
        · exact hother card hcard heq
        · exact hheld ⟨member, hmem, hnode, card, hcard, heq⟩
  · obtain ⟨member, hmem, hnode, hcard⟩ := hholds
    rcases List.mem_cons.1 hmem with rfl | hmem
    · exact absurd hnode.symm hn
    · exact ⟨member, hmem, hnode, hcard⟩

end Settled

/-- Every card that `admit` hands out is shown qualified. -/
theorem Admitted.settled {views : List NodeView} {online : List Bool}
    {entries : List (String × JobInstance)} {pools pools' : List ResourcePool}
    {tasks : List AdmitTask} {members : List (ℕ × Allocation)}
    (h : Admitted online entries pools tasks pools') (hsettled : Settled views pools members) :
    (∀ task ∈ tasks, ∀ member ∈ task.placement, ∀ card ∈ member.2.gpus,
      ShownQualified views member.1 card.index) ∧
    Settled views pools' (tasks.flatMap AdmitTask.placement ++ members) := by
  induction h generalizing members with
  | nil => exact ⟨by simp, hsettled⟩
  | wait _ ih => exact ih hsettled
  | @place _ _ _ _ _ _ _ _ node alloc _ _ _ _ hplaced _ ih =>
    obtain ⟨hshown, hmid⟩ := hsettled.placedOn hplaced
    obtain ⟨hrest, hend⟩ := ih hmid
    refine ⟨List.forall_mem_cons.2 ⟨by simpa using hshown, hrest⟩, hend.mono ?_⟩
    intro member hmem
    simpa [List.flatMap_cons, or_left_comm] using hmem

/-! ### The check settles every card -/

/-- The check can judge this card: it has a reading, and if a job holds it, the reading shows it
tested or quarantined. -/
def CardJudged (runs : List WorkflowRun) (node : ℕ) (reading : List GpuHealth) (gpu : GpuInfo) :
    Prop :=
  ∃ health, readingOf reading gpu = some health ∧
    (Holds (jobMembers runs) node gpu.index →
      health.testedAt.isSome = true ∨ health.quarantined.isSome = true)

/-- What the check of a node's cards has done after the cards `done`. -/
structure CheckInv (views : List NodeView) (runs : List WorkflowRun) (node : ℕ)
    (done : List GpuInfo) (check : CardCheck) : Prop where
  settled : ∀ gpu ∈ done, gpu.vramMb ≠ 0 → CardSettled views check.pool node
    (jobMembers runs ++ check.toQualify.map ToQualify.member) gpu
  todo : ∀ card ∈ check.toQualify, card.node < node ∨
    (card.node = node ∧ ∀ c ∈ card.allocation.gpus, c.index ∈ done.map GpuInfo.index)

/-- What the check of one card leaves alone. -/
structure CardFrame (node : ℕ) (gpu : GpuInfo) (check check' : CardCheck) : Prop where
  total : check'.pool.total = check.pool.total
  slots : ∀ i, i ≠ gpu.index.toNat →
    check'.pool.availableVramMb[i]? = check.pool.availableVramMb[i]?
  flags : ∀ i, i ≠ gpu.index.toNat → check'.pool.blocked[i]? = check.pool.blocked[i]?
  todo : ∃ new, check'.toQualify = check.toQualify ++ new ∧ ∀ card ∈ new, card.node = node ∧
    ∀ c ∈ card.allocation.gpus, c.index = gpu.index

theorem blockCard_frame {pool pool' : ResourcePool} {health : Option GpuHealth} {gpu : GpuInfo}
    (h : blockCard pool health gpu = .ok pool') : pool'.total = pool.total ∧
      pool'.availableVramMb = pool.availableVramMb ∧
      ∀ i, i ≠ gpu.index.toNat → pool'.blocked[i]? = pool.blocked[i]? := by
  obtain ⟨-, free, -, rfl⟩ := blockCard_eq_ok.1 h
  exact ⟨rfl, rfl, fun i hi => List.getElem?_set_ne (Ne.symm hi)⟩

theorem CardChecked.frame {node : ℕ} {reading : List GpuHealth} {check check' : CardCheck}
    {gpu : GpuInfo} (h : CardChecked node reading check gpu check') :
    CardFrame node gpu check check' := by
  cases h with
  | flagged hblock =>
    obtain ⟨htotal, hslots, hflags⟩ := blockCard_frame hblock
    exact ⟨htotal, fun i _ => by rw [hslots], hflags, [], by simp⟩
  | reserved hblock hindex hreserved =>
    obtain ⟨htotal, hslots, hflags⟩ := blockCard_frame hblock
    refine ⟨hreserved.alike.total.trans htotal, fun i hi => ?_, fun i hi => ?_, _, rfl, ?_⟩
    · refine (hreserved.slot_eq ?_).trans (by rw [hslots])
      simpa [GpuInfo.whole, hindex] using hi.symm
    · rw [hreserved.alike.blocked, hflags i hi]
    · simpa [GpuInfo.whole] using hindex

/-- The card itself is settled, unless an earlier card of its node was reserved under its index. -/
theorem CardChecked.settled {views : List NodeView} {runs : List WorkflowRun} {node : ℕ}
    {view : NodeView} {reading : List GpuHealth} {check check' : CardCheck} {gpu : GpuInfo}
    (h : CardChecked node reading check gpu check') (hview : views[node]? = some view)
    (honline : view.online = true) (hreading : view.reading = some reading)
    (hnodup : (check.pool.total.gpus.map GpuInfo.index).Nodup) (hgpu : gpu ∈ check.pool.total.gpus)
    (hjudged : CardJudged runs node reading gpu)
    (hfresh : ¬ Holds (check.toQualify.map ToQualify.member) node gpu.index) :
    CardSettled views check'.pool node
      (jobMembers runs ++ check'.toQualify.map ToQualify.member) gpu := by
  obtain ⟨health, hhealth, hheld⟩ := hjudged
  have hshown : health.testedAt.isSome = true → health.quarantined = none →
      ShownQualified views node gpu.index := fun htested hserving =>
    ⟨view, reading, health, hview, honline, hreading, hhealth, htested, hserving⟩
  -- what the flag says about the card as it was when its turn came
  have hflagged : ∀ {pool : ResourcePool}, blockCard check.pool (readingOf reading gpu) gpu =
      .ok pool → pool.blocked[gpu.index.toNat]? = some false →
      ∃ free, check.pool.availableVramMb[gpu.index.toNat]? = some free ∧
        health.blocked (decide (free = gpu.vramMb)) = none := by
    intro pool hblock hflag
    obtain ⟨hlt, free, hfree, rfl⟩ := blockCard_eq_ok.1 hblock
    rw [List.getElem?_set_self hlt, hhealth, Option.bind_some] at hflag
    exact ⟨free, hfree, by simpa using hflag⟩
  cases h with
  | flagged hblock =>
    intro hflag
    obtain ⟨free, hfree, hblocked⟩ := hflagged hblock hflag
    by_cases hunbooked : free = gpu.vramMb
    · have hqual := GpuHealth.qualified_of_blocked (by rwa [decide_eq_true hunbooked] at hblocked)
      rw [GpuHealth.qualified, Bool.and_eq_true, Option.isNone_iff_eq_none] at hqual
      exact .inl (hshown hqual.1 hqual.2)
    · have hserving := GpuHealth.not_quarantined_of_blocked hblocked
      by_cases hjob : Holds (jobMembers runs) node gpu.index
      · rcases hheld hjob with htested | hquarantined
        · exact .inl (hshown htested hserving)
        · rw [hserving] at hquarantined; cases hquarantined
      · refine .inr ⟨?_, ?_⟩
        · rw [(blockCard_frame hblock).2.1, hfree]
          exact fun heq => hunbooked (Option.some.inj heq)
        · rintro ⟨member, hmem, hrest⟩
          rcases List.mem_append.1 hmem with hmem | hmem
          · exact hjob ⟨member, hmem, hrest⟩
          · exact hfresh ⟨member, hmem, hrest⟩
  | @reserved pool pool' card _ _ hblock hindex hreserved =>
    intro hflag
    rw [hreserved.alike.blocked] at hflag
    obtain ⟨free, hfree, hblocked⟩ := hflagged hblock hflag
    obtain ⟨htotal, hslots, -⟩ := blockCard_frame hblock
    -- the card that was reserved is this one, and it was free
    have hcard : card ∈ check.pool.total.gpus := by
      rw [← htotal]
      exact hreserved.sublist.subset List.mem_cons_self
    obtain rfl := eq_of_index_eq hnodup hcard hgpu hindex
    have hslot := (hreserved.unbooked card List.mem_cons_self).2
    rw [hslots, hfree, Option.some.injEq] at hslot
    have hqual := GpuHealth.qualified_of_blocked (by rwa [decide_eq_true hslot] at hblocked)
    rw [GpuHealth.qualified, Bool.and_eq_true, Option.isNone_iff_eq_none] at hqual
    exact .inl (hshown hqual.1 hqual.2)

theorem CheckInv.card {views : List NodeView} {runs : List WorkflowRun} {node : ℕ}
    {view : NodeView} {reading : List GpuHealth} {done : List GpuInfo} {check check' : CardCheck}
    {gpu : GpuInfo} (hinv : CheckInv views runs node done check)
    (h : CardChecked node reading check gpu check') (hview : views[node]? = some view)
    (honline : view.online = true) (hreading : view.reading = some reading)
    (hnodup : (check.pool.total.gpus.map GpuInfo.index).Nodup) (hgpu : gpu ∈ check.pool.total.gpus)
    (hjudged : gpu.vramMb ≠ 0 → CardJudged runs node reading gpu)
    (hnew : gpu.index ∉ done.map GpuInfo.index) :
    CheckInv views runs node (done ++ [gpu]) check' := by
  obtain ⟨-, hslots, hflags, new, htodo, hnewCards⟩ := h.frame
  -- no card that is to be tested already is this one
  have hfresh : ¬ Holds (check.toQualify.map ToQualify.member) node gpu.index := by
    rintro ⟨member, hmem, hnode, c, hc, heq⟩
    obtain ⟨card, hcard, rfl⟩ := List.mem_map.1 hmem
    rcases hinv.todo card hcard with hlt | ⟨-, hindices⟩
    · exact absurd hnode hlt.ne
    · exact hnew (heq ▸ hindices c hc)
  refine ⟨fun g hg hvram => ?_, fun card hcard => ?_⟩
  · rcases List.mem_append.1 hg with hg | hg
    · -- a card checked before: its slot and flag are the same, and nothing of it is new
      have hne : g.index ≠ gpu.index := fun heq => hnew (heq ▸ List.mem_map_of_mem hg)
      have hslot : g.index.toNat ≠ gpu.index.toNat := fun heq => hne (UInt32.toNat_inj.1 heq)
      refine CardSettled.mono (fun hholds => ?_)
        ((hinv.settled g hg hvram).of_eq (hslots _ hslot) (hflags _ hslot))
      obtain ⟨member, hmem, hnode, c, hc, heq⟩ := hholds
      rw [htodo, List.map_append, ← List.append_assoc] at hmem
      rcases List.mem_append.1 hmem with hmem | hmem
      · exact ⟨member, hmem, hnode, c, hc, heq⟩
      · obtain ⟨card, hcard, rfl⟩ := List.mem_map.1 hmem
        exact absurd (heq.symm.trans ((hnewCards card hcard).2 c hc)) hne
    · obtain rfl := List.mem_singleton.1 hg
      exact h.settled hview honline hreading hnodup hgpu (hjudged hvram) hfresh
  · rw [htodo] at hcard
    rw [List.map_append]
    rcases List.mem_append.1 hcard with hcard | hcard
    · rcases hinv.todo card hcard with hlt | ⟨hnode, hindices⟩
      · exact .inl hlt
      · exact .inr ⟨hnode, fun c hc => List.mem_append_left _ (hindices c hc)⟩
    · obtain ⟨hnode, hindices⟩ := hnewCards card hcard
      exact .inr ⟨hnode, fun c hc => by simp [hindices c hc]⟩

/-- What the check of a node leaves alone, and what it adds. -/
structure NodeFrame (node : ℕ) (check check' : CardCheck) : Prop where
  total : check'.pool.total = check.pool.total
  todo : ∃ new, check'.toQualify = check.toQualify ++ new ∧ ∀ card ∈ new, card.node = node

theorem NodeFrame.refl (node : ℕ) (check : CardCheck) : NodeFrame node check check :=
  ⟨rfl, [], by simp⟩

theorem NodeFrame.trans {node : ℕ} {a b c : CardCheck} (h : NodeFrame node a b)
    (h' : NodeFrame node b c) : NodeFrame node a c := by
  obtain ⟨new, htodo, hnew⟩ := h.todo
  obtain ⟨new', htodo', hnew'⟩ := h'.todo
  exact ⟨h'.total.trans h.total, new ++ new', by rw [htodo', htodo, List.append_assoc],
    List.forall_mem_append.2 ⟨hnew, hnew'⟩⟩

theorem CardFrame.node {node : ℕ} {gpu : GpuInfo} {check check' : CardCheck}
    (h : CardFrame node gpu check check') : NodeFrame node check check' :=
  have ⟨new, htodo, hnew⟩ := h.todo
  ⟨h.total, new, htodo, fun card hcard => (hnew card hcard).1⟩

section Node

variable {views : List NodeView} {runs : List WorkflowRun} {node : ℕ} {view : NodeView}
  {reading : List GpuHealth} {lastQualified : List ((ℕ × UInt32) × Instant)} {utc : DateTime}
  {now : Instant}

/-- The cards of a node, one after the other. -/
theorem CheckInv.cards (hview : views[node]? = some view) (honline : view.online = true)
    (hreading : view.reading = some reading) {todo : List GpuInfo} {done : List GpuInfo}
    {check check' : CardCheck} (hgpus : check.pool.total.gpus = done ++ todo)
    (hnodup : (check.pool.total.gpus.map GpuInfo.index).Nodup)
    (hjudged : ∀ gpu ∈ check.pool.total.gpus, gpu.vramMb ≠ 0 → CardJudged runs node reading gpu)
    (hinv : CheckInv views runs node done check)
    (hok : todo.foldlM (checkCard node view reading lastQualified utc now) check = .ok check') :
    CheckInv views runs node (done ++ todo) check' ∧ NodeFrame node check check' := by
  induction todo generalizing done check with
  | nil =>
    obtain rfl := Exec.pure_eq_ok.1 hok
    exact ⟨by rwa [List.append_nil], .refl _ _⟩
  | cons gpu todo ih =>
    rw [List.foldlM_cons, Exec.bind_eq_ok] at hok
    obtain ⟨mid, hmid, hrest⟩ := hok
    have hchecked := checkCard_eq_ok hmid
    have hgpu : gpu ∈ check.pool.total.gpus := by rw [hgpus]; simp
    have hnew : gpu.index ∉ done.map GpuInfo.index := by
      rw [hgpus, List.map_append, List.map_cons, List.nodup_append] at hnodup
      exact fun hmem => hnodup.2.2 _ hmem _ List.mem_cons_self rfl
    have hmidInv := hinv.card hchecked hview honline hreading hnodup hgpu (hjudged gpu hgpu) hnew
    have htotal := hchecked.frame.total
    have hgpus' : mid.pool.total.gpus = (done ++ [gpu]) ++ todo := by
      rw [htotal, hgpus, List.append_assoc, List.singleton_append]
    obtain ⟨hend, hframe⟩ := ih hgpus' (htotal ▸ hnodup) (htotal ▸ hjudged) hmidInv hrest
    rw [List.append_assoc, List.singleton_append] at hend
    exact ⟨hend, hchecked.frame.node.trans hframe⟩

/-- After its check every card of a node is settled. -/
theorem checkNode_settled (hview : views[node]? = some view) {check check' : CardCheck}
    (hnodup : (check.pool.total.gpus.map GpuInfo.index).Nodup)
    (hjudged : ∀ reading, view.online = true → view.reading = some reading →
      ∀ gpu ∈ check.pool.total.gpus, gpu.vramMb ≠ 0 → CardJudged runs node reading gpu)
    (hbefore : ∀ card ∈ check.toQualify, card.node < node)
    (hok : checkNode node view lastQualified utc now check = .ok check') :
    (∀ gpu ∈ check.pool.total.gpus, gpu.vramMb ≠ 0 → CardSettled views check'.pool node
      (jobMembers runs ++ check'.toQualify.map ToQualify.member) gpu) ∧
    NodeFrame node check check' := by
  rcases checkNode_eq_ok hok with ⟨-, rfl⟩ | ⟨reading, honline, hreading, hcards⟩
  · -- all cards wait
    refine ⟨fun gpu _ _ hflag => ?_, rfl, [], by simp⟩
    rw [List.getElem?_replicate] at hflag
    split at hflag <;> cases hflag
  · have hstart : CheckInv views runs node [] check :=
      ⟨by simp, fun card hcard => .inl (hbefore card hcard)⟩
    obtain ⟨hend, hframe⟩ := hstart.cards hview honline hreading (List.nil_append _).symm hnodup
      (hjudged reading honline hreading) hcards
    exact ⟨hend.settled, hframe⟩

end Node

/-- The check can judge every card: the cards of a node are told apart by their index, and each one
with VRAM has a reading, which shows it tested or quarantined if a job holds the card. -/
def ChecksJudge (runs : List WorkflowRun) (pools : List ResourcePool) (views : List NodeView) :
    Prop :=
  ∀ node pool, pools[node]? = some pool → (pool.total.gpus.map GpuInfo.index).Nodup ∧
    ∃ view, views[node]? = some view ∧
      ∀ reading, view.online = true → view.reading = some reading →
        ∀ gpu ∈ pool.total.gpus, gpu.vramMb ≠ 0 → CardJudged runs node reading gpu

theorem ChecksJudge.set {runs : List WorkflowRun} {pools : List ResourcePool}
    {views : List NodeView} (h : ChecksJudge runs pools views) {node : ℕ}
    {pool pool' : ResourcePool} (hpool : pools[node]? = some pool)
    (htotal : pool'.total = pool.total) : ChecksJudge runs (pools.set node pool') views := by
  intro n p hp
  rw [List.getElem?_set] at hp
  split at hp
  · next heq =>
    subst heq
    split at hp
    · obtain rfl := Option.some.inj hp
      exact htotal ▸ h node pool hpool
    · cases hp
  · exact h n p hp

/-- The nodes, one after the other: those before `node` are settled. -/
theorem checkNodes_settled {runs : List WorkflowRun} {views todo : List NodeView}
    {lastQualified : List ((ℕ × UInt32) × Instant)} {utc : DateTime} {now : Instant} {node : ℕ}
    {pools pools' : List ResourcePool} {requalify requalify' : List (ℕ × UInt32)}
    {toQualify toQualify' : List ToQualify} (hviews : views.drop node = todo)
    (hjudge : ChecksJudge runs pools views) (hbefore : ∀ card ∈ toQualify, card.node < node)
    (hsettled : ∀ n < node, ∀ pool, pools[n]? = some pool → ∀ gpu ∈ pool.total.gpus,
      gpu.vramMb ≠ 0 → CardSettled views pool n
        (jobMembers runs ++ toQualify.map ToQualify.member) gpu)
    (hok : checkNodes lastQualified utc now node todo (pools, requalify, toQualify) =
      .ok (pools', requalify', toQualify')) :
    Settled views pools' (jobMembers runs ++ toQualify'.map ToQualify.member) := by
  induction todo generalizing node pools requalify toQualify with
  | nil =>
    obtain ⟨rfl, -, rfl⟩ : pools = pools' ∧ requalify = requalify' ∧ toQualify = toQualify' := by
      simpa [checkNodes] using hok
    refine ⟨fun pool hpool => ?_, fun n pool hpool => ?_⟩
    · obtain ⟨n, hn⟩ := List.mem_iff_getElem?.1 hpool
      exact (hjudge n pool hn).1
    · -- every pool has a view, so its turn has come
      obtain ⟨-, view, hview, -⟩ := hjudge n pool hpool
      have hlt := (List.getElem?_eq_some_iff.1 hview).1
      exact hsettled n (hlt.trans_le (List.drop_eq_nil_iff.1 hviews)) pool hpool
  | cons view todo ih =>
    simp only [checkNodes, Exec.bind_eq_ok, Exec.index_eq_ok] at hok
    obtain ⟨pool, hpool, check, hcheck, hrest⟩ := hok
    have hview : views[node]? = some view := by
      have hhead := congrArg (fun l : List NodeView => l[0]?) hviews
      simpa using hhead
    have htail : views.drop (node + 1) = todo := by
      rw [← List.tail_drop, hviews, List.tail_cons]
    obtain ⟨hnodup, view', hview', hjudged⟩ := hjudge node pool hpool
    obtain rfl := Option.some.inj (hview.symm.trans hview')
    obtain ⟨hcards, htotal, new, htodo, hnew⟩ :=
      checkNode_settled hview hnodup hjudged hbefore hcheck
    refine ih htail (hjudge.set hpool htotal) (fun card hcard => ?_) (fun n hn p hp => ?_) hrest
    · rw [htodo] at hcard
      rcases List.mem_append.1 hcard with hcard | hcard
      · exact (hbefore card hcard).trans (Nat.lt_succ_self _)
      · exact (hnew card hcard).trans_lt (Nat.lt_succ_self _)
    · rw [List.getElem?_set] at hp
      split at hp
      · next heq =>
        subst heq
        split at hp
        · obtain rfl := Option.some.inj hp
          exact fun gpu hgpu => hcards gpu (htotal ▸ hgpu)
        · cases hp
      · next hne =>
        -- an earlier node: what is new is not on it
        intro gpu hgpu hvram
        refine (hsettled n (by omega) p hp gpu hgpu hvram).mono fun hholds => ?_
        obtain ⟨member, hmem, hnode, hcard⟩ := hholds
        rw [htodo, List.map_append, ← List.append_assoc] at hmem
        rcases List.mem_append.1 hmem with hmem | hmem
        · exact ⟨member, hmem, hnode, hcard⟩
        · obtain ⟨card, hcard', rfl⟩ := List.mem_map.1 hmem
          exact absurd ((hnew card hcard').symm.trans hnode) hne

theorem blockGpus_settled {daemon daemon' : DaemonState} {checks : GpuChecks}
    {views : List NodeView} {utc : DateTime} {now : Instant} {toQualify : List ToQualify}
    (hjudge : ChecksJudge daemon.runs daemon.pools views)
    (hok : blockGpus daemon checks views utc now = .ok (daemon', toQualify)) :
    daemon'.runs = daemon.runs ∧
      Settled views daemon'.pools (jobMembers daemon.runs ++ toQualify.map ToQualify.member) := by
  obtain ⟨pools, requalify, rfl, hcheck⟩ := blockGpus_eq_ok hok
  exact ⟨rfl, checkNodes_settled List.drop_zero hjudge (by simp) (by simp) hcheck⟩

/-! ### What the jobs hold, step by step -/

theorem mem_jobMembers {runs : List WorkflowRun} {member : ℕ × Allocation} :
    member ∈ jobMembers runs ↔ ∃ run ∈ runs, ∃ job ∈ run.jobs, ∃ execution ∈ job.executions,
      execution.member = member := by
  simp only [jobMembers, List.mem_flatMap, List.mem_map, mem_allJobs]
  constructor
  · rintro ⟨entry, ⟨run, hrun, -, hjob⟩, execution, hmem, rfl⟩
    exact ⟨run, hrun, entry.2, hjob, execution, hmem, rfl⟩
  · rintro ⟨run, hrun, job, hjob, execution, hmem, rfl⟩
    exact ⟨(run.runId, job), ⟨run, hrun, rfl, hjob⟩, execution, hmem, rfl⟩

theorem jobMembers_of_findJob {runs : List WorkflowRun} {key : JobKey} {job : JobInstance}
    (h : findJob runs key = some job) {execution : Execution} (hmem : execution ∈ job.executions) :
    execution.member ∈ jobMembers runs := by
  obtain ⟨run, hrun, hj⟩ := findJob_eq_some.1 h
  exact mem_jobMembers.2 ⟨run, Keyed.mem_of_get? hrun, job, Keyed.mem_of_get? hj, execution, hmem,
    rfl⟩

/-- A change that keeps every job's executions. -/
theorem jobMembers_keep {runs runs' : List WorkflowRun}
    (h : JobsKeep JobInstance.executions runs runs') : jobMembers runs' ⊆ jobMembers runs := by
  intro member hmem
  obtain ⟨run', hrun', job', hjob', execution, hexec, rfl⟩ := mem_jobMembers.1 hmem
  obtain ⟨run, hrun, job, hjob, heq⟩ := h run' hrun' job' hjob'
  exact mem_jobMembers.2 ⟨run, hrun, job, hjob, execution, heq ▸ hexec, rfl⟩

/-- One job changed: what is held is among what was held and what the change adds. -/
theorem jobMembers_updateJob {runs : List WorkflowRun} {key : JobKey}
    {f : JobInstance → JobInstance} {members : List (ℕ × Allocation)}
    (hsub : jobMembers runs ⊆ members)
    (hf : ∀ job, ∀ execution ∈ (f job).executions, execution ∈ job.executions ∨
      execution.member ∈ members) : jobMembers (updateJob runs key f) ⊆ members := by
  intro member hmem
  obtain ⟨run', hrun', job', hjob', execution, hexec, rfl⟩ := mem_jobMembers.1 hmem
  have hkept : ∀ run ∈ runs, ∀ job ∈ run.jobs, execution ∈ job.executions →
      execution.member ∈ members := fun run hrun job hjob hexec =>
    hsub (mem_jobMembers.2 ⟨run, hrun, job, hjob, execution, hexec, rfl⟩)
  rcases Keyed.mem_modify.1 hrun' with ⟨run, hrun, -, rfl⟩ | ⟨hrun, -⟩
  · rcases Keyed.mem_modify.1 hjob' with ⟨job, hjob, -, rfl⟩ | ⟨hjob, -⟩
    · rcases hf job execution hexec with hexec | hmem
      · exact hkept run hrun job hjob hexec
      · exact hmem
    · exact hkept run hrun job' hjob hexec
  · exact hkept run' hrun job' hjob' hexec

/-- Cards are settled, and everything the jobs hold may be given back. -/
def AppliedSettled (views : List NodeView) (members : List (ℕ × Allocation)) (acc : Applied) :
    Prop :=
  Settled views acc.daemon.pools members ∧ jobMembers acc.daemon.runs ⊆ members

theorem AppliedSettled.launch {views : List NodeView} {members : List (ℕ × Allocation)}
    {cfg : Config} {now : DateTime} {acc acc' : Applied} {outcome : LaunchOutcome}
    (hinv : AppliedSettled views members acc)
    (hmem : ∀ execution ∈ outcome.executions, execution.member ∈ members)
    (hok : applyLaunch cfg now acc outcome = .ok acc') : AppliedSettled views members acc' := by
  obtain ⟨hsettled, hjobs⟩ := hinv
  cases applyLaunch_eq_ok hok with
  | returned _ hrel => exact ⟨hsettled.releaseAll Execution.member hmem hrel, hjobs⟩
  | started _ _ _ _ =>
    exact ⟨hsettled, jobMembers_updateJob hjobs fun _ execution hexec => .inr (hmem _ hexec)⟩
  | turnedDown hjob _ _ hrel hjob' =>
    refine ⟨hsettled.releaseAll Execution.member hmem hrel,
      jobMembers_updateJob hjobs fun _ execution hexec => .inr ?_⟩
    rw [hjob'] at hexec
    refine hjobs (jobMembers_of_findJob hjob ?_)
    split at hexec <;> exact hexec
  | failed _ _ _ _ hrel =>
    exact ⟨hsettled.releaseAll Execution.member hmem hrel,
      jobMembers_updateJob hjobs fun _ execution hexec => .inl hexec⟩

theorem AppliedSettled.poll {views : List NodeView} {members : List (ℕ × Allocation)}
    {now : DateTime} {acc acc' : Applied} {entry : PollEntry}
    (hinv : AppliedSettled views members acc) (hok : applyPoll now acc entry = .ok acc') :
    AppliedSettled views members acc' := by
  obtain ⟨hsettled, hjobs⟩ := hinv
  have hrelease : ∀ {job : JobInstance} {pools : List ResourcePool},
      findJob acc.daemon.runs entry.key = some job →
      releaseExecutions acc.daemon.pools job.executions = .ok pools →
      Settled views pools members := fun hjob hrel =>
    hsettled.releaseAll Execution.member
      (fun _ hexec => hjobs (jobMembers_of_findJob hjob hexec)) hrel
  cases applyPoll_eq_ok hok with
  | same _ => exact ⟨hsettled, hjobs⟩
  | failed hjob _ _ hrel =>
    exact ⟨hrelease hjob hrel, jobMembers_updateJob hjobs fun _ _ hexec => by cases hexec⟩
  | exited hjob _ hrel =>
    refine ⟨hrelease hjob hrel, jobMembers_updateJob hjobs fun job execution hexec => ?_⟩
    rw [job.exited_executions] at hexec
    cases hexec

/-! ### Every step -/

/-- The readings of the check a label makes. -/
def Label.views : Label → Option (List NodeView)
  | .gpusBlocked views _ _ => some views
  | _ => none

/-- The condition on a check: it can judge every card. -/
def ChecksJudgeHeld (s : SchedulerState) (label : Label) : Prop :=
  ∀ views, label.views = some views → ChecksJudge s.daemon.runs s.daemon.pools views

/-- Since the last check every card has been settled. -/
def SettledSince (views : List NodeView) (s : SchedulerState) : Prop :=
  s.phase.checked = true →
    Settled views s.daemon.pools (jobMembers s.daemon.runs ++ s.phase.members)

theorem SettledSince.runs {views : List NodeView} {s s' : SchedulerState}
    (h : SettledSince views s) (hphase : s'.phase = s.phase)
    (hpools : s'.daemon.pools = s.daemon.pools)
    (hruns : jobMembers s'.daemon.runs ⊆ jobMembers s.daemon.runs) : SettledSince views s' := by
  intro hchecked
  rw [hphase] at hchecked ⊢
  rw [hpools]
  exact (h hchecked).mono (List.append_subset.2
    ⟨List.subset_append_of_subset_left _ hruns, List.subset_append_right _ _⟩)

theorem Step.settledSince {cfg : Config} {s s' : SchedulerState} {label : Label}
    {views : List NodeView} (h : Step cfg s label s') (hjudge : ChecksJudgeHeld s label)
    (hinv : SettledSince views s) : SettledSince (label.views.getD views) s' := by
  -- a phase that holds nothing
  have hnothing : ∀ {daemon : DaemonState} {checks : GpuChecks} {phase : Phase},
      Settled views daemon.pools (jobMembers daemon.runs) → phase.members = [] →
      SettledSince views ⟨daemon, checks, phase⟩ := by
    intro daemon checks phase hsettled hphase _
    rwa [hphase, List.append_nil]
  cases h with
  | @submit _ runId spec _ now _ _ hfresh hspec _ =>
    refine hinv.runs rfl rfl fun member hmem => ?_
    obtain ⟨run, hrun, job, hjob, execution, hexec, rfl⟩ := mem_jobMembers.1 hmem
    rw [submit_runs hfresh] at hrun
    rcases List.mem_append.1 hrun with hrun | hrun
    · exact mem_jobMembers.2 ⟨run, hrun, job, hjob, execution, hexec, rfl⟩
    · obtain rfl := List.mem_singleton.1 hrun
      rw [WorkflowRun.jobs_new (Dag.exists_topological hspec).1] at hjob
      obtain ⟨entry, -, rfl⟩ := List.mem_map.1 hjob
      cases hexec
  | cancel runId => exact hinv.runs rfl rfl (jobMembers_keep (.cancelRun fun _ => rfl))
  | reorderRuns hperm => exact hinv.runs rfl rfl (jobMembers_keep (.perm hperm))
  | reorderJobs hrun hperm =>
    exact hinv.runs rfl rfl (jobMembers_keep (.reorderJobs hrun hperm))
  | checkGpus => exact fun hchecked => by cases hchecked
  | qualificationOver _ => exact fun hchecked => by cases hchecked
  | qualificationKept _ => exact fun hchecked => by cases hchecked
  | qualificationsFinished _ => exact fun hchecked => by cases hchecked
  | gpusBlocked _ hok =>
    obtain ⟨hruns, hsettled⟩ := blockGpus_settled (hjudge _ rfl) hok
    exact fun _ => hruns ▸ hsettled
  | @qualificationLaunched daemon checks card todo result now pools checks' hok =>
    have hsettled := hinv rfl
    have hsub : jobMembers daemon.runs ++ todo.map ToQualify.member ⊆
        jobMembers daemon.runs ++ (card :: todo).map ToQualify.member := by
      rw [List.map_cons]
      exact List.append_subset.2 ⟨List.subset_append_left _ _,
        fun _ hmem => List.mem_append_right _ (List.mem_cons_of_mem _ hmem)⟩
    intro _
    unfold startQualification at hok
    cases result with
    | ok handle =>
      obtain ⟨rfl, -⟩ := Prod.mk.inj (Exec.pure_eq_ok.1 hok)
      exact hsettled.mono hsub
    | error error =>
      obtain ⟨pools', hrel, hok⟩ := Exec.bind_eq_ok.1 hok
      obtain ⟨rfl, -⟩ := Prod.mk.inj (Exec.pure_eq_ok.1 hok)
      have hmem : card.member ∈ jobMembers daemon.runs ++ (card :: todo).map ToQualify.member :=
        List.mem_append_right _ List.mem_cons_self
      exact (hsettled.release hmem hrel).mono hsub
  | gpusChecked => exact hinv
  | tick =>
    refine hnothing ((hinv rfl).mono ?_) rfl
    exact List.subset_append_of_subset_left _ (jobMembers_keep (.advancePending fun _ => rfl))
  | flushed hok =>
    obtain ⟨_, _, rfl⟩ := flushTransition_eq_ok hok
    exact hinv
  | flushDone next => cases next <;> exact hinv
  | cascade now =>
    refine hnothing ((hinv rfl).mono ?_) rfl
    exact List.subset_append_of_subset_left _ (jobMembers_keep (.cascadeSkipped fun _ => rfl))
  | admitQueued _ hok =>
    have hend := ((admitQueued_eq_ok hok).settled (hinv rfl)).2
    refine fun _ => hend.mono fun member hmem => ?_
    simpa [Phase.members, or_comm] using hmem
  | launched hlen =>
    refine fun _ => (hinv rfl).mono fun member hmem => ?_
    rw [Phase.members, List.flatMap_append, List.flatMap_singleton,
      AdmitTask.members_outcome hlen] at hmem
    simp only [Phase.members, List.flatMap_cons, List.mem_append] at hmem ⊢
    tauto
  | @launchesApplied daemon checks outcomes now applied hok =>
    have hstart : AppliedSettled views (jobMembers daemon.runs ++
        (Phase.launching [] outcomes).members) ⟨daemon, []⟩ :=
      ⟨hinv rfl, List.subset_append_left _ _⟩
    have hmember : ∀ outcome ∈ outcomes, ∀ execution ∈ outcome.executions, execution.member ∈
        jobMembers daemon.runs ++ (Phase.launching [] outcomes).members := by
      intro outcome hmem execution hexec
      refine List.mem_append_right _ (List.mem_append_right _ (List.mem_flatMap.2 ?_))
      exact ⟨outcome, hmem, List.mem_map_of_mem hexec⟩
    obtain ⟨hsettled, hsub⟩ := Exec.foldlM_invariant (fun acc outcome acc' hmem hinv hok =>
      AppliedSettled.launch hinv (hmember outcome hmem) hok) hok hstart
    exact hnothing (hsettled.mono hsub) rfl
  | collect => exact hinv
  | polled => exact hinv
  | @pollsApplied daemon checks entries now applied hok =>
    have hstart : AppliedSettled views (jobMembers daemon.runs) ⟨daemon, []⟩ :=
      ⟨(hinv rfl).mono (List.subset_append_left _ _), List.Subset.refl _⟩
    obtain ⟨hsettled, hsub⟩ := Exec.foldlM_invariant (fun acc entry acc' _ hinv hok =>
      AppliedSettled.poll hinv hok) hok hstart
    exact hnothing (hsettled.mono hsub) rfl

/-! ### Runs -/

/-- The scheduler together with the readings of its last check. -/
def watched (cfg : Config) : LTS (SchedulerState × List NodeView) Label where
  step s label s' := s.1.perform cfg label = some (.ok s'.1) ∧ s'.2 = label.views.getD s.2

/-- Every card these jobs get is shown tested and not quarantined by its node's reading. -/
def GivenQualified (views : List NodeView) (tasks : List AdmitTask) : Prop :=
  ∀ task ∈ tasks, ∀ member ∈ task.placement, ∀ card ∈ member.2.gpus,
    ShownQualified views member.1 card.index

/-- In every state of the system, the cards handed out next are shown qualified by the readings of
the last check. -/
def OnlyQualified (cfg : Config) (A : LTS (SchedulerState × List NodeView) Label)
    (daemon : DaemonState) : Prop :=
  ∀ s views, A.Reach (.starting daemon, []) (s, views) → ∀ online tasks s',
    s.perform cfg (.admitQueued online) = some (.ok s') → s'.phase = .launching tasks [] →
    GivenQualified views tasks

/-- **Only qualified cards get work**, in every run of the scheduler whose checks can judge every
card, from whatever runs were taken back. -/
theorem qualified_only (cfg : Config) (daemon : DaemonState) :
    OnlyQualified cfg ((watched cfg).guard fun s label => ChecksJudgeHeld s.1 label) daemon := by
  intro s views hreach online tasks s' hstep hphase
  have hinv : SettledSince views s := hreach.invariant (I := fun s => SettledSince s.2 s.1)
    (fun hchecked => by cases hchecked) fun s label s' _ hinv hstep => by
      obtain ⟨hjudge, hperform, hviews⟩ := hstep
      rw [hviews]
      exact (step_of_perform hperform).settledSince hjudge hinv
  cases step_of_perform hstep with
  | admitQueued _ hok =>
    obtain ⟨rfl, -⟩ := Phase.launching.inj hphase
    exact ((admitQueued_eq_ok hok).settled (hinv rfl)).1

/-- Steps that make no check leave the readings alone. -/
theorem watched_reach_of_run {cfg : Config} {G : SchedulerState × List NodeView → Label → Prop}
    (hG : ∀ s label, label.views = none → G s label) {s s' : SchedulerState}
    {views : List NodeView} {labels : List Label} (hquiet : ∀ label ∈ labels, label.views = none)
    (h : s.run cfg labels = some s') : ((watched cfg).guard G).Reach (s, views) (s', views) := by
  induction labels generalizing s with
  | nil => exact Option.some.inj h ▸ .refl
  | cons label labels ih =>
    rw [List.forall_mem_cons] at hquiet
    obtain ⟨mid, hmid, hrest⟩ := SchedulerState.run_cons.1 h
    have hfirst : ((watched cfg).guard G).step (s, views) label (mid, views) :=
      ⟨hG _ _ hquiet.1, hmid, by rw [hquiet.1]; rfl⟩
    exact (LTS.Reach.refl.tail hfirst).trans (ih hquiet.2 hrest)

/-! ### A card that was never tested -/

/-- The store of a controller that stopped while the first job had the card. -/
def cardHeld : RunStore where
  runs := [⟨"r", "pair", 0, some cardEach⟩]
  jobs := [⟨"r", "a", "Running", none, some 1, none, none, some "local",
      some ⟨1, 512, [⟨0, 24576⟩]⟩, none⟩,
    ⟨"r", "b", "Queued", none, none, none, none, none, none, none⟩]

/-- The first job with the card, as it is taken back. -/
def takenBackJob : JobInstance :=
  { JobInstance.new { id := "a", command := "true", resources := { gpu := 1 } } 0 with
    state := .running
    startedAt := some 1
    executions := [⟨0, ⟨1, 512, [⟨0, 24576⟩]⟩, some ⟨7, .process none none⟩⟩] }

/-- The controller that took both jobs back. -/
def cardTakenBack : DaemonState :=
  { DaemonState.new [(ResourcePool.new oneCard).book ⟨1, 512, [⟨0, 24576⟩]⟩] cardHeld with
    runs := [{ WorkflowRun.new "r" 0 cardEach 0 0 with
      jobs := [takenBackJob,
        { JobInstance.new { id := "b", command := "true", resources := { gpu := 1 } } 1 with
          state := .queued }] }]
    runCounter := 1
    jobCounter := 2 }

theorem takeBack_cardHeld :
    takeBackRuns oneMachine (fun _ => some ⟨7, .process none none⟩) 0
      (.new [.new oneCard] cardHeld) = .ok cardTakenBack := by
  have hsaved : cardHeld.unfinishedRuns = [⟨"r", 0, some cardEach, cardHeld.jobs⟩] := by
    have hrows : cardHeld.runs.filter cardHeld.unfinished = cardHeld.runs := by decide
    have hsort : (cardHeld.runs.mergeSort fun a b => decide (a.createdAt ≤ b.createdAt)) =
        cardHeld.runs := List.mergeSort_singleton _
    have hjobs : cardHeld.jobsOf "r" = cardHeld.jobs := by decide
    rw [RunStore.unfinishedRuns, hrows, hsort, ← hjobs]
    rfl
  rw [takeBackRuns, DaemonState.new, hsaved]
  rfl

/-- The check sees this reading of the card. -/
def checkSees (health : GpuHealth) : List NodeView := [⟨true, some [health], fun _ => true⟩]

/-- After the check the first job exits, and the next tick is about to place the second. -/
def exitsAfterCheck : List Label :=
  [.gpusChecked, .tick, .flushDone, .cascade 2, .flushDone, .admitQueued [true],
    .launchesApplied 3, .flushDone, .collect, .polled (.ok (.exited 0)) none, .pollsApplied 4,
    .flushed true 5, .flushDone, .tick, .flushDone, .cascade 6, .flushDone]

/-- The cards these jobs get. -/
def cardsOf (tasks : List AdmitTask) : List (ℕ × UInt32) :=
  tasks.flatMap fun task => task.placement.flatMap fun member =>
    member.2.gpus.map fun card => (member.1, card.index)

/-- The cards that `admit` hands out in this state. -/
def handsOut (s : SchedulerState) : List (ℕ × UInt32) :=
  match s.perform oneMachine (.admitQueued [true]) with
  | some (.ok ⟨_, _, .launching tasks []⟩) => cardsOf tasks
  | _ => []

theorem handsOut_eq {s : SchedulerState} {cards : List (ℕ × UInt32)} (hne : cards ≠ [])
    (h : handsOut s = cards) : ∃ tasks s', s.perform oneMachine (.admitQueued [true]) =
      some (.ok s') ∧ s'.phase = .launching tasks [] ∧ cardsOf tasks = cards := by
  unfold handsOut at h
  split at h
  · next hperform => exact ⟨_, _, hperform, rfl, h⟩
  · exact absurd h.symm hne

theorem GivenQualified.shown {views : List NodeView} {tasks : List AdmitTask}
    (h : GivenQualified views tasks) {node : ℕ} {index : UInt32}
    (hmem : (node, index) ∈ cardsOf tasks) : ShownQualified views node index := by
  simp only [cardsOf, List.mem_flatMap, List.mem_map, Prod.mk.injEq] at hmem
  obtain ⟨task, htask, member, hmember, card, hcard, rfl, rfl⟩ := hmem
  exact h task htask member hmember card hcard

/-- Once the first job has exited, the second gets the card, whether the check saw it tested. -/
theorem handsOut_taken {health : GpuHealth} (hhealth : health = { index := 0 } ∨
      health = { index := 0, testedAt := some 0 })
    {G : SchedulerState × List NodeView → Label → Prop}
    (hG : ∀ s label, label.views = none → G s label)
    (hcheck : ∀ s, s.daemon.pools = cardTakenBack.pools →
      G (s, []) (.gpusBlocked (checkSees health) 0 0)) :
    ∃ (s : SchedulerState) (tasks : List AdmitTask) (s' : SchedulerState),
      ((watched oneMachine).guard G).Reach (.starting cardTakenBack, [])
        (s, checkSees health) ∧ s.perform oneMachine (.admitQueued [true]) = some (.ok s') ∧
      s'.phase = .launching tasks [] ∧ cardsOf tasks = [(0, 0)] := by
  have hstart : ((SchedulerState.starting cardTakenBack).run oneMachine
      [.qualificationsFinished]).map (fun s => s.daemon.pools) = some cardTakenBack.pools := by
    decide
  have hrun : ((SchedulerState.starting cardTakenBack).run oneMachine ([.qualificationsFinished] ++
      .gpusBlocked (checkSees health) 0 0 :: exitsAfterCheck)).map handsOut = some [(0, 0)] := by
    rcases hhealth with rfl | rfl <;> decide
  obtain ⟨s, hs, hcards⟩ := Option.map_eq_some_iff.1 hrun
  obtain ⟨start, hfirst, hrest⟩ := SchedulerState.run_append.1 hs
  obtain ⟨checked, hchecked, hlast⟩ := SchedulerState.run_cons.1 hrest
  rw [hfirst, Option.map_some, Option.some.injEq] at hstart
  obtain ⟨tasks, s', hperform, hphase, hgiven⟩ := handsOut_eq (by simp) hcards
  have hreach : ((watched oneMachine).guard G).Reach (.starting cardTakenBack, []) (start, []) :=
    watched_reach_of_run hG (by simp [Label.views]) hfirst
  refine ⟨s, tasks, s', ?_, hperform, hphase, hgiven⟩
  exact (hreach.tail ⟨hcheck start hstart, hchecked, rfl⟩).trans
    (watched_reach_of_run hG (by simp [exitsAfterCheck, Label.views]) hlast)

/-- A job that was taken back held a card that was never tested while the check ran; it exits, and
the next job gets the card. -/
theorem takenBack_handsOutUntested :
    ∃ daemon, takeBackRuns oneMachine (fun _ => some ⟨7, .process none none⟩) 0
        (.new [.new oneCard] cardHeld) = .ok daemon ∧
      ¬ OnlyQualified oneMachine (watched oneMachine) daemon := by
  refine ⟨cardTakenBack, takeBack_cardHeld, fun hclaim => ?_⟩
  obtain ⟨s, tasks, s', hreach, hperform, hphase, hcards⟩ := handsOut_taken (.inl rfl)
    (G := fun _ _ => True) (fun _ _ _ => trivial) fun _ _ => trivial
  have hgiven := hclaim s _ hreach.of_guard [true] tasks s' hperform hphase
  obtain ⟨view, reading, health, hview, -, hreading, hfind, htested, -⟩ :=
    hgiven.shown (hcards ▸ List.mem_singleton_self _)
  obtain rfl := Option.some.inj hview
  obtain rfl := Option.some.inj hreading
  obtain rfl := Option.some.inj hfind
  cases htested

/-- Had the check seen the card tested, the next job would get it rightly. -/
theorem takenBack_handsOutTested : ∃ (s : SchedulerState) (tasks : List AdmitTask),
    cardsOf tasks = [(0, 0)] ∧
    (∃ s', s.perform oneMachine (.admitQueued [true]) = some (.ok s') ∧
      s'.phase = .launching tasks []) ∧
    GivenQualified (checkSees { index := 0, testedAt := some 0 }) tasks := by
  obtain ⟨s, tasks, s', hreach, hperform, hphase, hcards⟩ := handsOut_taken (.inr rfl)
    (G := fun s label => ChecksJudgeHeld s.1 label)
    (fun _ _ hnone _ hviews => by rw [hnone] at hviews; cases hviews)
    fun s hpools views hviews => by
      obtain rfl := Option.some.inj hviews
      rw [hpools]
      intro node pool hpool
      cases node with
      | succ node => cases hpool
      | zero =>
        obtain rfl := Option.some.inj hpool
        refine ⟨by decide, _, rfl, fun reading _ hreading gpu hgpu _ => ?_⟩
        obtain rfl := Option.some.inj hreading
        obtain rfl := List.mem_singleton.1 hgpu
        exact ⟨_, rfl, fun _ => .inl rfl⟩
  exact ⟨s, tasks, hcards, ⟨s', hperform, hphase⟩,
    qualified_only oneMachine cardTakenBack s _ hreach [true] tasks s' hperform hphase⟩

end Roster
