import Roster.Data.Keyed
import Roster.Data.Latch
import Roster.Workflow.Model

/-!
# Quarantined cards

Cards taken out of service after a hardware fault.  `Quarantines` is what the daemon holds in
memory, and `handle` writes the cards to a file whenever a quarantine starts or ends, so that a
restarted daemon finds them again.

Nothing but the history of a card decides whether it is in quarantine: it is exactly if it had a
fault after it was last cleared, and the first such fault is the reason (`quarantine_of_history`).
A card is known by its UUID, or by its index when it has none; a UUID that reads like an index
would make two cards one.
-/

namespace Roster

/-- Xids that point at the card rather than the job. -/
def hardwareXids : List UInt64 := [48, 63, 64, 74, 79, 92, 94, 95, 119, 120]

/-- Why and since when a card is out of service. -/
structure Quarantine where
  reason : String
  since : DateTime
  deriving DecidableEq, Repr

/-- What can happen to a card. -/
inductive CardEvent
  | xid (code : UInt64)
  | pagesPendingRetirement
  | testFailed (reason : String)
  | cleared
  deriving DecidableEq, Repr

/-- `CardEvent::apply`: the card's quarantine after the event. -/
def CardEvent.apply (now : DateTime) (current : Option Quarantine) : CardEvent → Option Quarantine
  | .cleared => none
  | .xid code =>
    if hardwareXids.contains code then current.or (some ⟨"Xid " ++ toString code.toNat, now⟩)
    -- usually the job crashed, not the card
    else current
  | .pagesPendingRetirement => current.or (some ⟨"memory pages pending retirement", now⟩)
  | .testFailed reason => current.or (some ⟨"qualification failed: " ++ reason, now⟩)

/-- `key`: a card's UUID, or its index when the inventory has none. -/
def GpuInfo.key (gpu : GpuInfo) : String :=
  if gpu.uuid.isEmpty then "index-" ++ toString gpu.index.toNat else gpu.uuid

/-- How the map is written to the file, and read back. -/
structure QuarantineFormat (Text : Type*) where
  toText : List (String × Quarantine) → Text
  fromText : Text → Option (List (String × Quarantine))

/-- What was written is read back, in any order. -/
def QuarantineFormat.RoundTrips {Text : Type*} (fmt : QuarantineFormat Text) : Prop :=
  ∀ cards, (cards.map Prod.fst).Nodup →
    ∃ cards', fmt.fromText (fmt.toText cards) = some cards' ∧ cards'.Perm cards

/-- Quarantined cards of this machine, by key, and when each card was last tested. -/
structure Quarantines where
  cards : List (String × Quarantine)
  tested : List (String × DateTime)
  deriving DecidableEq, Repr

namespace Quarantines

variable {Text : Type*} (fmt : QuarantineFormat Text)

/-- `Quarantines::load`; a missing or unreadable file means none. -/
def load (file : Option Text) : Quarantines := ⟨(file.bind fmt.fromText).getD [], []⟩

/-- `Quarantines::get`. -/
def get (quarantines : Quarantines) (gpu : GpuInfo) : Option Quarantine :=
  (Keyed.get? Prod.fst quarantines.cards gpu.key).map Prod.snd

/-- `Quarantines::tested_at`. -/
def testedAt (quarantines : Quarantines) (gpu : GpuInfo) : Option DateTime :=
  (Keyed.get? Prod.fst quarantines.tested gpu.key).map Prod.snd

/-- The cards after the event, and whether a quarantine started; nothing if the event changes
nothing. -/
def change (quarantines : Quarantines) (gpu : GpuInfo) (event : CardEvent) (now : DateTime) :
    Option (List (String × Quarantine) × Bool) :=
  let before := quarantines.get gpu
  let after := event.apply now before
  if after = before then none
  else match after with
    | some quarantine =>
      some (Keyed.insert Prod.fst quarantines.cards (gpu.key, quarantine), true)
    | none => some (Keyed.erase Prod.fst quarantines.cards gpu.key, false)

/-- A new fault: the card is to be tested again. -/
def dropTested (quarantines : Quarantines) (gpu : GpuInfo) : Quarantines :=
  { quarantines with tested := Keyed.erase Prod.fst quarantines.tested gpu.key }

/-- `Quarantines::handle`, and the file it leaves; `written` says whether `save` succeeded. -/
def handle (quarantines : Quarantines) (file : Option Text) (gpu : GpuInfo) (event : CardEvent)
    (now : DateTime) (written : Bool) : Quarantines × Option Text :=
  match quarantines.change gpu event now with
  | none => (quarantines, file)
  | some (cards, started) =>
    let changed := { quarantines with cards := cards }
    (if started then changed.dropTested gpu else changed,
      if written then some (fmt.toText cards) else file)

/-- The second section of `Quarantines::record_test`, after the result was applied. -/
def noteTested (quarantines : Quarantines) (gpu : GpuInfo) (now : DateTime) : Quarantines :=
  { quarantines with tested := Keyed.insert Prod.fst quarantines.tested (gpu.key, now) }

/-- What `Quarantines::record_test` makes of a result. -/
def testEvent (passed : Bool) (reason : String) : CardEvent :=
  if passed then .cleared else .testFailed reason

variable {fmt} {quarantines : Quarantines} {file : Option Text} {gpu gpu' : GpuInfo}
  {event : CardEvent} {now : DateTime} {written : Bool}

theorem get_of_cards {cards : List (String × Quarantine)} {tested : List (String × DateTime)} :
    get ⟨cards, tested⟩ gpu = (Keyed.get? Prod.fst cards gpu.key).map Prod.snd := rfl

@[simp] theorem get_dropTested : (quarantines.dropTested gpu).get gpu' = quarantines.get gpu' := rfl

theorem get_congr (h : gpu.key = gpu'.key) : quarantines.get gpu = quarantines.get gpu' := by
  rw [get, get, h]

theorem testedAt_dropTested : (quarantines.dropTested gpu).testedAt gpu' =
    if gpu.key = gpu'.key then none else quarantines.testedAt gpu' := by
  rw [testedAt, testedAt, dropTested, Keyed.get?_erase]
  split <;> rfl

theorem testedAt_noteTested : (quarantines.noteTested gpu now).testedAt gpu' =
    if gpu.key = gpu'.key then some now else quarantines.testedAt gpu' := by
  rw [testedAt, testedAt, noteTested, Keyed.get?_insert]
  split <;> rfl

/-- Nothing changes exactly if the event leaves the card's quarantine as it is. -/
theorem change_eq_none :
    quarantines.change gpu event now = none ↔ event.apply now (quarantines.get gpu) =
      quarantines.get gpu := by
  unfold change
  dsimp only
  split
  · next h => simpa using h
  · next h => split <;> simp_all

/-- A change is one of this card's entry, to what the event makes of it. -/
theorem get?_change {cards : List (String × Quarantine)} {started : Bool}
    (h : quarantines.change gpu event now = some (cards, started)) :
    (Keyed.get? Prod.fst cards gpu'.key).map Prod.snd =
      if gpu.key = gpu'.key then event.apply now (quarantines.get gpu)
      else quarantines.get gpu' := by
  unfold change at h
  dsimp only at h
  split at h
  · cases h
  · split at h
    · next quarantine hafter =>
      obtain ⟨rfl, -⟩ := Prod.mk.inj (Option.some.inj h)
      rw [Keyed.get?_insert, hafter]
      split <;> rfl
    · next hafter =>
      obtain ⟨rfl, -⟩ := Prod.mk.inj (Option.some.inj h)
      rw [Keyed.get?_erase, hafter]
      split <;> rfl

/-- A quarantine started exactly if the event leaves the card in one. -/
theorem started_of_change {cards : List (String × Quarantine)} {started : Bool}
    (h : quarantines.change gpu event now = some (cards, started)) :
    started = (event.apply now (quarantines.get gpu)).isSome := by
  unfold change at h
  dsimp only at h
  split at h
  · cases h
  · split at h
    · next hafter =>
      obtain ⟨-, rfl⟩ := Prod.mk.inj (Option.some.inj h)
      rw [hafter, Option.isSome_some]
    · next hafter =>
      obtain ⟨-, rfl⟩ := Prod.mk.inj (Option.some.inj h)
      rw [hafter, Option.isSome_none]

/-- What `handle` does, by whether anything changes. -/
theorem handle_cases :
    (quarantines.change gpu event now = none ∧
      quarantines.handle fmt file gpu event now written = (quarantines, file)) ∨
    ∃ cards started, quarantines.change gpu event now = some (cards, started) ∧
      (quarantines.handle fmt file gpu event now written).1.cards = cards ∧
      (quarantines.handle fmt file gpu event now written).2 =
        if written then some (fmt.toText cards) else file := by
  unfold handle
  cases hchange : quarantines.change gpu event now with
  | none => exact .inl ⟨rfl, rfl⟩
  | some changed =>
    refine .inr ⟨changed.1, changed.2, rfl, ?_, rfl⟩
    dsimp only
    split <;> rfl

/-- An event changes the entry of its own card only. -/
theorem get_handle : (quarantines.handle fmt file gpu event now written).1.get gpu' =
    if gpu.key = gpu'.key then event.apply now (quarantines.get gpu) else quarantines.get gpu' := by
  rcases handle_cases with ⟨hsame, hhandle⟩ | ⟨cards, started, hchange, hcards, -⟩
  · rw [hhandle, change_eq_none.1 hsame]
    split
    · next hkey => exact get_congr hkey.symm
    · rfl
  · rw [← get?_change hchange, get, hcards]

theorem nodup_change {cards : List (String × Quarantine)} {started : Bool}
    (hnodup : (quarantines.cards.map Prod.fst).Nodup)
    (h : quarantines.change gpu event now = some (cards, started)) :
    (cards.map Prod.fst).Nodup := by
  unfold change at h
  dsimp only at h
  split at h
  · cases h
  · split at h <;> obtain ⟨rfl, -⟩ := Prod.mk.inj (Option.some.inj h)
    · exact Keyed.nodup_insert hnodup
    · exact Keyed.nodup_erase hnodup

end Quarantines

/-! ### Over restarts -/

/-- What a machine keeps of its cards: in memory, and in the file. -/
structure QuarantineState (Text : Type*) where
  quarantines : Quarantines
  file : Option Text

/-- What happens to the cards of a machine, and to its daemon. -/
inductive CardLabel
  | happened (gpu : GpuInfo) (event : CardEvent) (now : DateTime)
  | restarted
  deriving DecidableEq, Repr

namespace QuarantineState

variable {Text : Type*} (fmt : QuarantineFormat Text)

/-- A machine whose daemon starts for the first time. -/
def init : QuarantineState Text := ⟨.load fmt none, none⟩

/-- One step, in which every write succeeds. -/
def perform (s : QuarantineState Text) : CardLabel → QuarantineState Text
  | .happened gpu event now =>
    let (quarantines, file) := s.quarantines.handle fmt s.file gpu event now true
    ⟨quarantines, file⟩
  | .restarted => ⟨.load fmt s.file, s.file⟩

/-- The state after a history. -/
def after (history : List CardLabel) : QuarantineState Text :=
  history.foldl (perform fmt) (init fmt)

/-- What the daemon would load now is what it holds. -/
structure Saved (s : QuarantineState Text) : Prop where
  nodup : (s.quarantines.cards.map Prod.fst).Nodup
  file : (Quarantines.load fmt s.file).cards.Perm s.quarantines.cards

variable {fmt} {s : QuarantineState Text}

/-- Every write leaves in the file what is in memory. -/
theorem Saved.perform (hfmt : fmt.RoundTrips) (h : Saved fmt s) (label : CardLabel) :
    Saved fmt (s.perform fmt label) := by
  cases label with
  | restarted =>
    exact ⟨(h.file.map Prod.fst).nodup_iff.2 h.nodup, .refl _⟩
  | happened gpu event now =>
    unfold QuarantineState.perform
    rcases Quarantines.handle_cases with ⟨-, hhandle⟩ | ⟨cards, started, hchange, hcards, hfile⟩
    · dsimp only
      rw [hhandle]
      exact h
    · have hnodup := Quarantines.nodup_change h.nodup hchange
      obtain ⟨cards', hread, hperm⟩ := hfmt cards hnodup
      refine ⟨?_, ?_⟩ <;> dsimp only <;> rw [hcards]
      · exact hnodup
      · rw [hfile]
        simpa [Quarantines.load, hread] using hperm

theorem Saved.init : Saved fmt (init fmt) := ⟨List.nodup_nil, .refl _⟩

/-- A restart changes no entry. -/
theorem Saved.get_restarted (h : Saved fmt s) (gpu : GpuInfo) :
    (s.perform fmt .restarted).quarantines.get gpu = s.quarantines.get gpu := by
  refine congrArg (Option.map Prod.snd) ?_
  exact (Keyed.get?_perm h.file.symm h.nodup)

end QuarantineState

/-! ### The history of a card -/

/-- A card, whatever index it has at the moment; one without a UUID is known by its index only. -/
inductive CardId
  | uuid (uuid : String)
  | index (index : UInt32)
  deriving DecidableEq, Repr

/-- The card an inventory entry is about. -/
def GpuInfo.card (gpu : GpuInfo) : CardId :=
  if gpu.uuid.isEmpty then .index gpu.index else .uuid gpu.uuid

/-- The UUID does not read like an index. -/
def GpuInfo.WellNamed (gpu : GpuInfo) : Prop := ∀ n : ℕ, gpu.uuid ≠ "index-" ++ toString n

/-- The fault an event is, if it is one. -/
def CardEvent.fault : CardEvent → Option String
  | .xid code => if hardwareXids.contains code then some ("Xid " ++ toString code.toNat) else none
  | .pagesPendingRetirement => some "memory pages pending retirement"
  | .testFailed reason => some ("qualification failed: " ++ reason)
  | .cleared => none

/-- A quarantine is a latch that a fault sets and that a clear resets. -/
def CardEvent.latch : Latch (CardEvent × DateTime) Quarantine where
  resets event := decide (event.1 = .cleared)
  cause event := event.1.fault.map fun reason => ⟨reason, event.2⟩

/-- What happened to a card, and when. -/
def eventsOn (card : CardId) (history : List CardLabel) : List (CardEvent × DateTime) :=
  history.filterMap fun
    | .happened gpu event now => if gpu.card = card then some (event, now) else none
    | .restarted => none

/-- What happened to a card since it was last cleared. -/
def sinceCleared (card : CardId) (history : List CardLabel) : List (CardEvent × DateTime) :=
  CardEvent.latch.since (eventsOn card history)

theorem CardEvent.apply_eq (now : DateTime) (current : Option Quarantine) (event : CardEvent) :
    event.apply now current = CardEvent.latch.hold current (event, now) := by
  cases event with
  | xid code =>
    simp only [apply, Latch.hold, CardEvent.latch, fault]
    split <;> simp
  | pagesPendingRetirement => rfl
  | testFailed reason => rfl
  | cleared => rfl

theorem toString_inj {m n : ℕ} (h : toString m = toString n) : m = n := by
  have hdigits : Nat.toDigits 10 m = Nat.toDigits 10 n := by
    rw [← Nat.toList_repr, ← Nat.toList_repr]
    exact congrArg String.toList h
  rw [← Nat.ofDigitChars_ten_toDigits (n := m), hdigits, Nat.ofDigitChars_ten_toDigits]

/-- Two entries have one key exactly if they are about one card. -/
theorem GpuInfo.key_eq_iff {gpu gpu' : GpuInfo} (h : gpu.WellNamed) (h' : gpu'.WellNamed) :
    gpu.key = gpu'.key ↔ gpu.card = gpu'.card := by
  unfold key card
  split <;> split
  · rw [CardId.index.injEq, String.append_right_inj]
    exact ⟨fun heq => UInt32.toNat_inj.1 (toString_inj heq), fun heq => by rw [heq]⟩
  · simp only [reduceCtorEq, iff_false]
    exact fun heq => h' _ heq.symm
  · simp only [reduceCtorEq, iff_false]
    exact h _
  · rw [CardId.uuid.injEq]

theorem eventsOn_concat (card : CardId) (history : List CardLabel) (label : CardLabel) :
    eventsOn card (history ++ [label]) = eventsOn card history ++ eventsOn card [label] :=
  List.filterMap_append

/-- Every step makes of a card's quarantine what the events of the step make of it. -/
theorem QuarantineState.get_perform {Text : Type*} {fmt : QuarantineFormat Text}
    {s : QuarantineState Text} (hsaved : Saved fmt s) {label : CardLabel} {gpu : GpuInfo}
    (hnamed : ∀ gpu event now, label = .happened gpu event now → gpu.WellNamed)
    (hgpu : gpu.WellNamed) : (s.perform fmt label).quarantines.get gpu =
      (eventsOn gpu.card [label]).foldl CardEvent.latch.hold (s.quarantines.get gpu) := by
  cases label with
  | restarted => exact hsaved.get_restarted gpu
  | happened other event now =>
    have hkey := GpuInfo.key_eq_iff (hnamed other event now rfl) hgpu
    unfold QuarantineState.perform
    dsimp only
    rw [Quarantines.get_handle]
    by_cases hcard : other.card = gpu.card
    · rw [if_pos (hkey.2 hcard), Quarantines.get_congr (hkey.2 hcard), CardEvent.apply_eq]
      simp [eventsOn, hcard]
    · rw [if_neg fun h => hcard (hkey.1 h)]
      simp [eventsOn, hcard]

theorem QuarantineState.get_after {Text : Type*} {fmt : QuarantineFormat Text}
    (hfmt : fmt.RoundTrips) {history : List CardLabel}
    (hnamed : ∀ gpu event now, .happened gpu event now ∈ history → gpu.WellNamed)
    {gpu : GpuInfo} (hgpu : gpu.WellNamed) : Saved fmt (after fmt history) ∧
      (after fmt history).quarantines.get gpu =
        (sinceCleared gpu.card history).findSome? CardEvent.latch.cause := by
  have hfold : Saved fmt (after fmt history) ∧ (after fmt history).quarantines.get gpu =
      (eventsOn gpu.card history).foldl CardEvent.latch.hold none := by
    induction history using List.reverseRecOn with
    | nil => exact ⟨.init, rfl⟩
    | append_singleton history label ih =>
      obtain ⟨hsaved, hget⟩ := ih fun gpu event now hmem =>
        hnamed gpu event now (List.mem_append_left _ hmem)
      have hstep : after fmt (history ++ [label]) = (after fmt history).perform fmt label := by
        rw [after, List.foldl_append]
        rfl
      rw [hstep, eventsOn_concat, List.foldl_append, ← hget]
      refine ⟨hsaved.perform hfmt label, get_perform hsaved (fun gpu event now heq => ?_) hgpu⟩
      exact hnamed gpu event now (List.mem_append_right _ (heq ▸ List.mem_cons_self))
  exact ⟨hfold.1, hfold.2.trans (CardEvent.latch.foldl_hold _)⟩

/-- **The quarantine of a card is the first fault in its history since it was last cleared**, over
any number of restarts and whatever its index, and nothing that happens to another card changes
it. -/
theorem quarantine_of_history {Text : Type*} {fmt : QuarantineFormat Text}
    (hfmt : fmt.RoundTrips) {history : List CardLabel}
    (hnamed : ∀ gpu event now, .happened gpu event now ∈ history → gpu.WellNamed)
    {gpu : GpuInfo} (hgpu : gpu.WellNamed) :
    let s := QuarantineState.after fmt history
    ((s.quarantines.get gpu).isSome = true ↔
      ∃ event ∈ sinceCleared gpu.card history, event.1.fault.isSome = true) ∧
    (∀ quarantine, s.quarantines.get gpu = some quarantine ↔
      ∃ before event after,
        sinceCleared gpu.card history = before ++ (event, quarantine.since) :: after ∧
        event.fault = some quarantine.reason ∧ ∀ earlier ∈ before, earlier.1.fault = none) ∧
    ∀ other event now, other.WellNamed → other.card ≠ gpu.card →
      (s.perform fmt (.happened other event now)).quarantines.get gpu = s.quarantines.get gpu := by
  intro s
  obtain ⟨hsaved, hget⟩ := QuarantineState.get_after hfmt hnamed hgpu
  refine ⟨?_, fun quarantine => ?_, fun other event now hother hne => ?_⟩
  · rw [hget, List.isSome_findSome?]
    simp [CardEvent.latch]
  · rw [hget, List.findSome?_eq_some_iff]
    constructor
    · rintro ⟨before, ⟨event, now⟩, after, heq, hcause, hnone⟩
      obtain ⟨reason, hfault, rfl⟩ := Option.map_eq_some_iff.1 hcause
      exact ⟨before, event, after, heq, hfault, fun earlier hmem =>
        Option.map_eq_none_iff.1 (hnone earlier hmem)⟩
    · rintro ⟨before, event, after, heq, hfault, hnone⟩
      refine ⟨before, (event, quarantine.since), after, heq, ?_, fun earlier hmem => ?_⟩
      · simp [CardEvent.latch, hfault]
      · simp [CardEvent.latch, hnone earlier hmem]
  · rw [QuarantineState.get_perform hsaved _ hgpu]
    · simp [s, eventsOn, hne]
    · rintro _ _ _ ⟨⟩
      exact hother

/-- A card that was moved to another slot over a restart keeps its quarantine. -/
theorem moved_quarantined : ∃ s : QuarantineState (List (String × Quarantine)),
    s.quarantines.get ⟨1, "card", 24000, "GPU-a"⟩ = some ⟨"Xid 48", 5⟩ := by
  let fmt : QuarantineFormat (List (String × Quarantine)) := ⟨fun cards => cards, some⟩
  have hfmt : fmt.RoundTrips := fun cards _ => ⟨cards, rfl, .refl _⟩
  have hcard : ∀ index : UInt32, GpuInfo.WellNamed ⟨index, "card", 24000, "GPU-a"⟩ := by
    intro index n heq
    have hfirst := congrArg (fun s : String => s.toList.head?) heq
    simp at hfirst
  let history : List CardLabel :=
    [.happened ⟨0, "card", 24000, "GPU-a"⟩ (.xid 13) 4,
      .happened ⟨0, "card", 24000, "GPU-a"⟩ (.xid 48) 5, .restarted,
      .happened ⟨1, "card", 24000, "GPU-a"⟩ (.xid 79) 6]
  refine ⟨.after fmt history, ((quarantine_of_history hfmt ?_ (hcard 1)).2.1 _).2 ?_⟩
  · simp only [history, List.mem_cons, CardLabel.happened.injEq, reduceCtorEq, List.not_mem_nil]
    rintro gpu event now (⟨rfl, -⟩ | ⟨rfl, -⟩ | h | ⟨rfl, -⟩ | h)
    · exact hcard 0
    · exact hcard 0
    · cases h
    · exact hcard 1
    · cases h
  · exact ⟨[(.xid 13, 4)], .xid 48, [(.xid 79, 6)], by decide, by decide, by decide⟩

end Roster
