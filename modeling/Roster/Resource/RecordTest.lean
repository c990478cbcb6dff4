import Roster.LTS.Basic
import Roster.Resource.Quarantine

/-!
# Faults while a test is recorded

`record_test` applies a result to the cards and then, in a second section under another lock, notes
when the card was tested.  A fault drops the test time of its card, so that the card is tested
again; when it does so while a `record_test` of the card is still under way, that call puts a time
back and the card counts as tested after a fault that no test has seen.

Where no call is under way when a fault drops the time, the card has no test time until it is tested
again (`untested_after_fault`), and otherwise it has one in the end (`tested_of_underWay`).
-/

namespace Roster

/-- How far a call of `record_test` is. -/
inductive TestStage
  /-- The result is to be applied. -/
  | applying
  /-- The result started a quarantine: the test time is to be dropped, the cards are locked. -/
  | dropping
  /-- The test time is to be noted. -/
  | noting
  | returned
  deriving DecidableEq, Repr

/-- A call of `record_test`. -/
structure TestCall where
  gpu : GpuInfo
  passed : Bool
  reason : String
  stage : TestStage
  deriving DecidableEq, Repr

/-- The cards of a machine, and who works on them. -/
structure CardTasks where
  quarantines : Quarantines
  /-- The card of a `handle` that started a quarantine and is to drop the test time; it has the
  cards locked. -/
  handling : Option GpuInfo
  calls : List TestCall
  deriving DecidableEq, Repr

/-- A section of a call of `handle` or of `record_test`. -/
inductive CardTaskLabel
  /-- `record_test` is called. -/
  | recordTest (gpu : GpuInfo) (passed : Bool) (reason : String)
  /-- `handle` changes the cards: the Xid listener's, the startup scan's or an operator's. -/
  | handle (gpu : GpuInfo) (event : CardEvent) (now : DateTime)
  /-- It drops the test time. -/
  | drop
  /-- A `record_test` applies its result. -/
  | apply (call : ℕ) (now : DateTime)
  /-- That started a quarantine, and drops the test time. -/
  | applyDrop (call : ℕ)
  /-- It notes the test time and returns. -/
  | note (call : ℕ) (now : DateTime)
  deriving DecidableEq, Repr

namespace CardTasks

/-- Nobody has the cards locked. -/
def cardsFree (s : CardTasks) : Bool :=
  s.handling.isNone && s.calls.all fun call => decide (call.stage ≠ .dropping)

/-- The call goes on to a stage. -/
def setStage (s : CardTasks) (call : ℕ) (stage : TestStage) : CardTasks :=
  { s with calls := s.calls.modify call fun call => { call with stage := stage } }

/-- The section of `handle` on the cards; says whether a test time is to be dropped. -/
def changeCards (s : CardTasks) (gpu : GpuInfo) (event : CardEvent) (now : DateTime) :
    CardTasks × Bool :=
  match s.quarantines.change gpu event now with
  | none => (s, false)
  | some (cards, started) =>
    ({ s with quarantines := { s.quarantines with cards := cards } }, started)

/-- One section. -/
def perform (s : CardTasks) : CardTaskLabel → Option CardTasks
  | .recordTest gpu passed reason =>
    some { s with calls := s.calls ++ [⟨gpu, passed, reason, .applying⟩] }
  | .handle gpu event now =>
    if s.cardsFree then
      let (s', started) := s.changeCards gpu event now
      some { s' with handling := if started then some gpu else none }
    else none
  | .drop => s.handling.map fun gpu =>
      { s with quarantines := s.quarantines.dropTested gpu, handling := none }
  | .apply call now => do
    let record ← s.calls[call]?
    if s.cardsFree ∧ record.stage = .applying then
      let event := Quarantines.testEvent record.passed record.reason
      let (s', started) := s.changeCards record.gpu event now
      return s'.setStage call (if started then .dropping else .noting)
    else none
  | .applyDrop call => do
    let record ← s.calls[call]?
    if record.stage = .dropping then
      return { s with quarantines := s.quarantines.dropTested record.gpu }.setStage call .noting
    else none
  | .note call now => do
    let record ← s.calls[call]?
    if record.stage = .noting then
      return { s with
        quarantines := s.quarantines.noteTested record.gpu now }.setStage call .returned
    else none

/-- The calls on one machine's cards, in any order. -/
def system : LTS CardTasks CardTaskLabel := .ofPerform perform

/-- A daemon that has just loaded its cards. -/
def init (quarantines : Quarantines) : CardTasks := ⟨quarantines, none, []⟩

/-- A `record_test` of the card is under way. -/
def UnderWay (s : CardTasks) (gpu : GpuInfo) : Prop :=
  ∃ call ∈ s.calls, call.gpu.key = gpu.key ∧ call.stage ≠ .returned

/-- All calls have returned. -/
def AllReturned (s : CardTasks) : Prop :=
  s.handling = none ∧ ∀ call ∈ s.calls, call.stage = .returned

/-- A hardware Xid takes the card out of service. -/
def Faults (s : CardTasks) (gpu : GpuInfo) (label : CardTaskLabel) (s' : CardTasks) : Prop :=
  (∃ code now, label = .handle gpu (.xid code) now ∧ hardwareXids.contains code = true) ∧
    s.quarantines.get gpu = none ∧ (s'.quarantines.get gpu).isSome = true

/-- A `handle` that drops a card's test time finds no `record_test` of the card under way. -/
def Settled (s : CardTasks) (label : CardTaskLabel) : Prop :=
  label = .drop → ∀ gpu ∈ s.handling, ¬ s.UnderWay gpu

variable {s s' : CardTasks} {label : CardTaskLabel} {gpu : GpuInfo}

/-! ### What a section does -/

/-- What each section leaves of the test times, the calls and the lock. -/
inductive Section (s : CardTasks) : CardTaskLabel → CardTasks → Prop
  | recordTest (gpu : GpuInfo) (passed : Bool) (reason : String) :
      Section s (.recordTest gpu passed reason)
        { s with calls := s.calls ++ [⟨gpu, passed, reason, .applying⟩] }
  | handle {gpu : GpuInfo} {event : CardEvent} {now : DateTime}
      (cards : List (String × Quarantine)) (started : Bool) : s.cardsFree = true →
      Section s (.handle gpu event now)
        ⟨⟨cards, s.quarantines.tested⟩, if started then some gpu else none, s.calls⟩
  | drop {gpu : GpuInfo} : s.handling = some gpu →
      Section s .drop ⟨s.quarantines.dropTested gpu, none, s.calls⟩
  | apply {call : ℕ} {now : DateTime} {record : TestCall} (cards : List (String × Quarantine))
      (started : Bool) : s.calls[call]? = some record → s.cardsFree = true →
      record.stage = .applying →
      Section s (.apply call now)
        ({ s with quarantines := ⟨cards, s.quarantines.tested⟩ }.setStage call
          (if started then .dropping else .noting))
  | applyDrop {call : ℕ} {record : TestCall} : s.calls[call]? = some record →
      record.stage = .dropping →
      Section s (.applyDrop call)
        ({ s with quarantines := s.quarantines.dropTested record.gpu }.setStage call .noting)
  | note {call : ℕ} {now : DateTime} {record : TestCall} : s.calls[call]? = some record →
      record.stage = .noting →
      Section s (.note call now)
        ({ s with quarantines := s.quarantines.noteTested record.gpu now }.setStage call .returned)

theorem changeCards_eq (s : CardTasks) (gpu : GpuInfo) (event : CardEvent) (now : DateTime) :
    ∃ cards started, s.changeCards gpu event now =
      ({ s with quarantines := ⟨cards, s.quarantines.tested⟩ }, started) := by
  unfold changeCards
  split
  · exact ⟨s.quarantines.cards, false, rfl⟩
  · next cards started _ => exact ⟨cards, started, rfl⟩

theorem section_of_perform (h : s.perform label = some s') : Section s label s' := by
  cases label with
  | recordTest gpu passed reason =>
    obtain rfl := Option.some.inj h
    exact .recordTest gpu passed reason
  | handle gpu event now =>
    obtain ⟨cards, started, hchange⟩ := s.changeCards_eq gpu event now
    simp only [perform, hchange] at h
    split at h
    · next hfree =>
      obtain rfl := Option.some.inj h
      exact .handle cards started hfree
    · cases h
  | drop =>
    obtain ⟨gpu, hgpu, rfl⟩ := Option.map_eq_some_iff.1 h
    exact .drop hgpu
  | apply call now =>
    obtain ⟨record, hrecord, h⟩ := Option.bind_eq_some_iff.1 h
    obtain ⟨cards, started, hchange⟩ := s.changeCards_eq record.gpu
      (Quarantines.testEvent record.passed record.reason) now
    simp only [hchange] at h
    split at h
    · next hcond =>
      obtain rfl := Option.some.inj h
      exact .apply cards started hrecord hcond.1 hcond.2
    · cases h
  | applyDrop call =>
    obtain ⟨record, hrecord, h⟩ := Option.bind_eq_some_iff.1 h
    split at h
    · next hstage =>
      obtain rfl := Option.some.inj h
      exact .applyDrop hrecord hstage
    · cases h
  | note call now =>
    obtain ⟨record, hrecord, h⟩ := Option.bind_eq_some_iff.1 h
    split at h
    · next hstage =>
      obtain rfl := Option.some.inj h
      exact .note hrecord hstage
    · cases h

/-! ### Calls under way -/

section UnderWay

variable {call : ℕ} {record : TestCall}

theorem getElem?_setStage (stage : TestStage) (i : ℕ) : (s.setStage call stage).calls[i]? =
    if call = i then (s.calls[i]?).map fun call => { call with stage := stage }
    else s.calls[i]? := by
  rw [setStage, List.getElem?_modify]
  split <;> simp

theorem underWay_of_mem (h : s.calls[call]? = some record) (hstage : record.stage ≠ .returned)
    (hkey : record.gpu.key = gpu.key) : s.UnderWay gpu :=
  ⟨record, List.mem_of_getElem? h, hkey, hstage⟩

/-- A call that went on was under way before. -/
theorem underWay_of_setStage {stage : TestStage} (hrecord : s.calls[call]? = some record)
    (hstage : record.stage ≠ .returned) (h : (s.setStage call stage).UnderWay gpu) :
    s.UnderWay gpu := by
  obtain ⟨other, hmem, hkey, hother⟩ := h
  obtain ⟨i, hi⟩ := List.mem_iff_getElem?.1 hmem
  rw [getElem?_setStage] at hi
  split at hi
  · next heq =>
    subst heq
    rw [hrecord, Option.map_some, Option.some.injEq] at hi
    subst hi
    exact underWay_of_mem hrecord hstage hkey
  · exact underWay_of_mem hi hother hkey

/-- Every other call is still under way, and so is this one unless it returned. -/
theorem underWay_setStage {stage : TestStage} (hrecord : s.calls[call]? = some record)
    (hstage : stage ≠ .returned ∨ record.gpu.key ≠ gpu.key) (h : s.UnderWay gpu) :
    (s.setStage call stage).UnderWay gpu := by
  obtain ⟨other, hmem, hkey, hother⟩ := h
  obtain ⟨i, hi⟩ := List.mem_iff_getElem?.1 hmem
  have hset : (s.setStage call stage).calls[i]? = _ := getElem?_setStage stage i
  by_cases heq : call = i
  · subst heq
    obtain rfl := Option.some.inj (hrecord.symm.trans hi)
    rw [if_pos rfl, hrecord, Option.map_some] at hset
    exact underWay_of_mem hset (hstage.resolve_right fun hne => hne hkey) hkey
  · rw [if_neg heq, hi] at hset
    exact underWay_of_mem hset hother hkey

end UnderWay

/-! ### The test time -/

/-- The card has no test time, and no call is under way that would note one. -/
structure Untested (s : CardTasks) (gpu : GpuInfo) : Prop where
  testedAt : s.quarantines.testedAt gpu = none
  idle : ¬ s.UnderWay gpu

/-- No section gives an untested card a test time, as long as no `record_test` of it is called. -/
theorem Untested.step (h : Untested s gpu) (hstep : Section s label s')
    (hnew : ∀ other passed reason, label = .recordTest other passed reason →
      other.key ≠ gpu.key) : Untested s' gpu := by
  obtain ⟨htested, hidle⟩ := h
  cases hstep with
  | recordTest other passed reason =>
    refine ⟨htested, ?_⟩
    rintro ⟨call, hmem, hkey, hstage⟩
    rcases List.mem_append.1 hmem with hmem | hmem
    · exact hidle ⟨call, hmem, hkey, hstage⟩
    · rw [List.mem_singleton.1 hmem] at hkey
      exact hnew other passed reason rfl hkey
  | handle _ _ _ => exact ⟨htested, hidle⟩
  | drop _ =>
    refine ⟨?_, hidle⟩
    rw [Quarantines.testedAt_dropTested, htested, ite_self]
  | apply _ _ hrecord _ hstage =>
    exact ⟨htested, fun h => hidle (underWay_of_setStage (s := { s with quarantines := _ }) hrecord
      (by rw [hstage]; decide) h)⟩
  | applyDrop hrecord hstage =>
    refine ⟨?_, fun h => hidle (underWay_of_setStage (s := { s with quarantines := _ }) hrecord
      (by rw [hstage]; decide) h)⟩
    exact (Quarantines.testedAt_dropTested).trans (by rw [htested, ite_self])
  | note hrecord hstage =>
    refine ⟨?_, fun h => hidle (underWay_of_setStage (s := { s with quarantines := _ }) hrecord
      (by rw [hstage]; decide) h)⟩
    -- the call is one of another card
    have hne : ¬ _ = gpu.key := fun hkey =>
      hidle (underWay_of_mem hrecord (by rw [hstage]; decide) hkey)
    exact (Quarantines.testedAt_noteTested).trans (by rw [if_neg hne, htested])

/-- A fault of the card that has not dropped the test time yet, or an untested card. -/
def Faulted (s : CardTasks) (gpu : GpuInfo) : Prop :=
  (∃ other, s.handling = some other ∧ other.key = gpu.key) ∨ Untested s gpu

theorem Faulted.step (h : Faulted s gpu) (hsettled : Settled s label) (hstep : Section s label s')
    (hnew : ∀ other passed reason, label = .recordTest other passed reason →
      other.key ≠ gpu.key) : Faulted s' gpu := by
  rcases h with ⟨other, hhandling, hkey⟩ | huntested
  · have hlocked : s.cardsFree ≠ true := by simp [cardsFree, hhandling]
    cases hstep with
    | recordTest _ _ _ => exact .inl ⟨other, hhandling, hkey⟩
    | handle _ _ hfree => exact absurd hfree hlocked
    | drop hgpu =>
      obtain rfl := Option.some.inj (hhandling.symm.trans hgpu)
      refine .inr ⟨?_, ?_⟩
      · rw [Quarantines.testedAt_dropTested, if_pos hkey]
      · rintro ⟨call, hmem, hcall, hstage⟩
        exact hsettled rfl other hhandling ⟨call, hmem, hcall.trans hkey.symm, hstage⟩
    | apply _ _ _ hfree _ => exact absurd hfree hlocked
    | applyDrop _ _ => exact .inl ⟨other, hhandling, hkey⟩
    | note _ _ => exact .inl ⟨other, hhandling, hkey⟩
  · exact .inr (huntested.step hstep hnew)

/-- A fault that takes the card out of service is about to drop its test time. -/
theorem handling_of_faults (h : s.perform label = some s') (hfaults : Faults s gpu label s') :
    s'.handling = some gpu := by
  obtain ⟨⟨code, now, rfl, -⟩, hbefore, hafter⟩ := hfaults
  rw [perform, changeCards] at h
  cases hchange : s.quarantines.change gpu (.xid code) now with
  | none =>
    simp only [hchange] at h
    split at h
    · obtain rfl := Option.some.inj h
      rw [hbefore] at hafter
      cases hafter
    · cases h
  | some changed =>
    obtain ⟨cards, started⟩ := changed
    simp only [hchange] at h
    split at h
    · obtain rfl := Option.some.inj h
      have hget : (Keyed.get? Prod.fst cards gpu.key).map Prod.snd = _ :=
        Quarantines.get?_change hchange
      rw [if_pos rfl] at hget
      rw [Quarantines.get_of_cards, hget, ← Quarantines.started_of_change hchange] at hafter
      exact if_pos hafter
    · cases h

end CardTasks

open CardTasks

/-- **A new fault asks for another test**, where no `record_test` of the card is under way when a
fault drops the card's test time: in every interleaving of the calls, once a hardware Xid took the
card out of service and no `record_test` of it begins after that, it has no test time when all
calls have returned. -/
theorem untested_after_fault {s s₁ s₂ : CardTasks} {gpu : GpuInfo} {label : CardTaskLabel}
    {labels : List CardTaskLabel} (hstep : CardTasks.system.step s label s₁)
    (hfaults : Faults s gpu label s₁) (htrace : (CardTasks.system.guard Settled).Trace s₁ labels s₂)
    (hnew : ∀ other passed reason, .recordTest other passed reason ∈ labels →
      other.key ≠ gpu.key) (hdone : s₂.AllReturned) : s₂.quarantines.testedAt gpu = none := by
  have hfaulted : Faulted s₂ gpu := by
    refine htrace.invariant (I := fun s => Faulted s gpu)
      (.inl ⟨gpu, handling_of_faults hstep hfaults, rfl⟩) ?_
    rintro mid label next hmem hmid ⟨hsettled, hst⟩
    refine hmid.step hsettled (section_of_perform hst) ?_
    rintro other passed reason rfl
    exact hnew other passed reason hmem
  rcases hfaulted with ⟨other, hhandling, -⟩ | huntested
  · rw [hdone.1] at hhandling
    cases hhandling
  · exact huntested.testedAt

/-- A call that is under way puts a test time back, unless it is dropped again. -/
theorem tested_of_underWay {s s' : CardTasks} {gpu : GpuInfo} {labels : List CardTaskLabel}
    (hway : s.UnderWay gpu) (htrace : CardTasks.system.Trace s labels s')
    (hkept : ∀ label ∈ labels, label ≠ .drop ∧ ∀ call, label ≠ .applyDrop call)
    (hdone : s'.AllReturned) : (s'.quarantines.testedAt gpu).isSome = true := by
  have hall : s'.UnderWay gpu ∨ (s'.quarantines.testedAt gpu).isSome = true := by
    refine htrace.invariant (I := fun s => s.UnderWay gpu ∨
      (s.quarantines.testedAt gpu).isSome = true) (.inl hway) ?_
    intro mid label next hmem hmid hst
    cases section_of_perform hst with
    | recordTest _ _ _ =>
      refine hmid.imp_left ?_
      rintro ⟨call, hcall, hkey, hstage⟩
      exact ⟨call, List.mem_append_left _ hcall, hkey, hstage⟩
    | handle _ _ _ => exact hmid
    | drop _ => exact absurd rfl (hkept _ hmem).1
    | apply _ started hrecord _ _ =>
      refine hmid.imp_left
        (underWay_setStage (s := { mid with quarantines := _ }) hrecord (.inl ?_))
      split <;> decide
    | applyDrop _ _ => exact absurd rfl ((hkept _ hmem).2 _)
    | @note call now record hrecord _ =>
      have hnoted : (mid.quarantines.noteTested record.gpu now).testedAt gpu = _ :=
        Quarantines.testedAt_noteTested
      by_cases hkey : record.gpu.key = gpu.key
      · rw [if_pos hkey] at hnoted
        exact .inr (Option.isSome_iff_exists.2 ⟨now, hnoted⟩)
      · rw [if_neg hkey] at hnoted
        refine hmid.imp (underWay_setStage (s := { mid with quarantines := _ }) hrecord
          (.inr hkey)) fun hsome => ?_
        exact (congrArg Option.isSome hnoted).trans hsome
  refine hall.resolve_left ?_
  rintro ⟨call, hmem, -, hstage⟩
  exact hstage (hdone.2 call hmem)

/-- A card with a UUID. -/
def cardA : GpuInfo := ⟨0, "card", 24000, "GPU-a"⟩

/-- It passed its test before it faults. -/
theorem faultsAfterTest_untested : ∃ s s₁ s₂,
    CardTasks.system.step s (.handle cardA (.xid 48) 3) s₁ ∧
      Faults s cardA (.handle cardA (.xid 48) 3) s₁ ∧ CardTasks.system.Trace s₁ [.drop] s₂ ∧
      s₂.quarantines.testedAt cardA = none := by
  let s : CardTasks := ⟨⟨[], [("GPU-a", 2)]⟩, none, [⟨cardA, true, "ok", .returned⟩]⟩
  let s₁ : CardTasks := { s with
    quarantines := ⟨[("GPU-a", ⟨"Xid 48", 3⟩)], [("GPU-a", 2)]⟩, handling := some cardA }
  let s₂ : CardTasks := { s₁ with
    quarantines := ⟨[("GPU-a", ⟨"Xid 48", 3⟩)], []⟩, handling := none }
  have hstep : CardTasks.system.step s (.handle cardA (.xid 48) 3) s₁ := by
    show s.perform _ = some s₁
    decide
  have hfaults : Faults s cardA (.handle cardA (.xid 48) 3) s₁ :=
    ⟨⟨48, 3, rfl, by decide⟩, by decide, by decide⟩
  have hdrop : CardTasks.system.step s₁ .drop s₂ := by
    show s₁.perform _ = some s₂
    decide
  have hsettled : Settled s₁ .drop := by
    rintro - gpu - ⟨call, hmem, -, hstage⟩
    rw [List.mem_singleton.1 hmem] at hstage
    exact hstage rfl
  refine ⟨s, s₁, s₂, hstep, hfaults, .cons hdrop (.nil _), ?_⟩
  exact untested_after_fault hstep hfaults (.cons ⟨hsettled, hdrop⟩ (.nil _)) (by simp)
    ⟨rfl, by decide⟩

/-- The Xid comes after the result was applied and before the test time is noted. -/
def faultsInBetween : List CardTaskLabel := [.drop, .note 0 4]

/-- The card is in quarantine, and tested after the fault that put it there. -/
theorem faultsInBetween_tested : ∃ s s₁ s₂,
    CardTasks.system.Reach (CardTasks.init ⟨[], []⟩) s ∧
    CardTasks.system.step s (.handle cardA (.xid 48) 3) s₁ ∧
    Faults s cardA (.handle cardA (.xid 48) 3) s₁ ∧
    CardTasks.system.Trace s₁ faultsInBetween s₂ ∧
    (∀ other passed reason, .recordTest other passed reason ∉ faultsInBetween) ∧
    s₂.AllReturned ∧ (s₂.quarantines.get cardA).isSome = true ∧
    s₂.quarantines.testedAt cardA = some 4 := by
  let called : CardTasks := ⟨⟨[], []⟩, none, [⟨cardA, true, "ok", .applying⟩]⟩
  let s : CardTasks := ⟨⟨[], []⟩, none, [⟨cardA, true, "ok", .noting⟩]⟩
  let s₁ : CardTasks :=
    ⟨⟨[("GPU-a", ⟨"Xid 48", 3⟩)], []⟩, some cardA, [⟨cardA, true, "ok", .noting⟩]⟩
  let dropped : CardTasks := { s₁ with handling := none }
  let s₂ : CardTasks :=
    ⟨⟨[("GPU-a", ⟨"Xid 48", 3⟩)], [("GPU-a", 4)]⟩, none, [⟨cardA, true, "ok", .returned⟩]⟩
  have hcalled :
      CardTasks.system.step (CardTasks.init ⟨[], []⟩) (.recordTest cardA true "ok") called := rfl
  have happlied : CardTasks.system.step called (.apply 0 2) s := by
    show called.perform _ = some s
    decide
  have hfault : CardTasks.system.step s (.handle cardA (.xid 48) 3) s₁ := by
    show s.perform _ = some s₁
    decide
  have hdropped : CardTasks.system.step s₁ .drop dropped := by
    show s₁.perform _ = some dropped
    decide
  have hnoted : CardTasks.system.step dropped (.note 0 4) s₂ := by
    show dropped.perform _ = some s₂
    decide
  exact ⟨s, s₁, s₂, .tail (.tail .refl hcalled) happlied, hfault,
    ⟨⟨48, 3, rfl, by decide⟩, by decide, by decide⟩,
    .cons hdropped (.cons hnoted (.nil _)), by simp [faultsInBetween], ⟨rfl, by decide⟩,
    by decide, by decide⟩

end Roster
