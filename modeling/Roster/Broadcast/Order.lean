import Roster.Broadcast.Integrity
import Mathlib.Data.List.Chain

/-!
# The order in which a receiver gets events

A receiver moves on by one position with every event it gets, and only a lap moves it further: the
version that shows the lap belongs to a position a whole ring later, so half a ring behind the
producer's cursor is still ahead of where the receiver was (`RingInv.resync_lt`).  What it got is
therefore in the order of the sends, without duplicates, and without a gap unless its lap count
grew (`Watch.InOrder`); and while the sender is idle a receiver that has just caught up gets the
last half ring of events and nothing more (`ring_order`).

Versions are computed in 64 bits, so this is about runs with fewer sends than fit there.
-/

namespace Roster

/-! ### Positions that share a slot -/

theorem add_le_of_mod_eq {a b m : ℕ} (hmod : a % m = b % m) (hlt : a < b) : a + m ≤ b := by
  have hdvd : m ∣ b - a := (Nat.modEq_iff_dvd' hlt.le).1 hmod
  have := Nat.le_of_dvd (by omega) hdvd
  omega

theorem eq_of_mod_eq {a b m n : ℕ} (hmod : a % m = b % m) (ha : a < n) (hb : b < n)
    (ha' : n ≤ a + m) (hb' : n ≤ b + m) : a = b := by
  rcases Nat.lt_trichotomy a b with hlt | heq | hlt
  · have := add_le_of_mod_eq hmod hlt
    omega
  · exact heq
  · have := add_le_of_mod_eq hmod.symm hlt
    omega

section

variable {T : Type} [WordSafe T] {k n : ℕ} {s : Channel T} {sent : List T}

/-! ### What a version says -/

/-- The version of a slot is the one it was built with, or belongs to the last position that was
written or is being written there. -/
theorem RingInv.version_cases (h : RingInv k n s sent) {pos v : UInt64}
    (hv : s.buffer.versions[s.buffer.slot pos]? = some v) :
    (n ≤ pos.toNat % 2 ^ k ∧ v = 2 * UInt64.ofNat (pos.toNat % 2 ^ k)) ∨
      ∃ last : UInt64, last.toNat % 2 ^ k = pos.toNat % 2 ^ k ∧
        ((last.toNat < n ∧ n ≤ last.toNat + 2 ^ k ∧ v = completed last) ∨
          (last.toNat = n ∧ sent.length = n + 1 ∧ v = midWrite last)) := by
  rcases h.slots _ (h.layout.slot_lt pos) with hopen | hholds
  · obtain ⟨-, last, -, hslot, hlength, hpos, -, hmid, -⟩ := h.opens hopen
    rw [hslot, hv] at hmid
    rw [h.layout.slot_eq, h.layout.slot_eq] at hslot
    exact .inr ⟨last, hslot, .inr ⟨hpos, hlength, Option.some.inj hmid⟩⟩
  · cases hholds with
    | fresh hle hfresh =>
      rw [hv, h.layout.slot_eq] at hfresh
      rw [h.layout.slot_eq] at hle
      exact .inl ⟨hle, Option.some.inj hfresh⟩
    | holds last value hlt hlast hslot hheld _ _ =>
      rw [h.layout.slot_eq, h.layout.slot_eq] at hslot
      rw [hv] at hheld
      rw [h.layout.versions] at hlast
      exact .inr ⟨last, hslot, .inl ⟨hlt, hlast, Option.some.inj hheld⟩⟩

/-- A version above the one a receiver waits for is a whole ring ahead. -/
theorem RingInv.lapped (h : RingInv k n s sent) (hsmall : sent.length + 1 < 2 ^ 63)
    {pos v : UInt64} (hpos : pos.toNat ≤ sent.length)
    (hv : s.buffer.versions[s.buffer.slot pos]? = some v) (hlt : completed pos < v) :
    pos.toNat + 2 ^ k < sent.length := by
  have hle := h.sender.le_length
  rw [UInt64.lt_iff_toNat_lt, toNat_completed] at hlt
  rcases h.version_cases hv with ⟨-, rfl⟩ | ⟨last, hmod, hlast⟩
  · have hmod : pos.toNat % 2 ^ k ≤ pos.toNat := Nat.mod_le _ _
    simp only [UInt64.toNat_mul, UInt64.toNat_ofNat', UInt64.reduceToNat] at hlt
    omega
  · have hahead : pos.toNat < last.toNat := by
      rcases hlast with ⟨hlast, -, rfl⟩ | ⟨hlast, -, rfl⟩
      · rw [toNat_completed] at hlt
        omega
      · rw [toNat_midWrite] at hlt
        omega
    have := add_le_of_mod_eq hmod.symm hahead
    rcases hlast with ⟨hlast, -, -⟩ | ⟨hlast, hlength, -⟩ <;> omega

/-- While the sender is idle, a slot has the version of the last position that went there. -/
theorem RingInv.current (h : RingInv k n s sent) (hidle : s.sending = .idle) {pos : UInt64}
    (hpos : pos.toNat < n) (hlast : n ≤ pos.toNat + 2 ^ k) :
    s.buffer.versions[s.buffer.slot pos]? = some (completed pos) := by
  have hslot : s.buffer.slot pos < s.buffer.versions.length :=
    h.layout.versions ▸ h.layout.slot_lt pos
  rw [List.getElem?_eq_getElem hslot]
  rcases h.version_cases (List.getElem?_eq_getElem hslot) with ⟨hle, -⟩ | ⟨last, hmod, hcase⟩
  · have := Nat.mod_le pos.toNat (2 ^ k)
    omega
  · have hsender := h.sender
    rw [hidle] at hsender
    rcases hcase with ⟨hlt, hle, hv⟩ | ⟨-, hlength, -⟩
    · have heq : last = pos := UInt64.toNat_inj.1 (eq_of_mod_eq hmod hlt hpos hle hlast)
      rw [hv, heq]
    · rw [show sent.length = n from hsender] at hlength
      omega

/-- While the sender is idle, nothing is at the cursor yet. -/
theorem RingInv.at_cursor (h : RingInv k n s sent) (hidle : s.sending = .idle)
    (hsmall : n + 1 < 2 ^ 63) {pos v : UInt64} (hpos : pos.toNat = n)
    (hv : s.buffer.versions[s.buffer.slot pos]? = some v) : v < completed pos := by
  rw [UInt64.lt_iff_toNat_lt, toNat_completed]
  rcases h.version_cases hv with ⟨-, rfl⟩ | ⟨last, hmod, hcase⟩
  · have hmod : pos.toNat % 2 ^ k ≤ pos.toNat := Nat.mod_le _ _
    simp only [UInt64.toNat_mul, UInt64.toNat_ofNat', UInt64.reduceToNat]
    omega
  · have hsender := h.sender
    rw [hidle] at hsender
    rcases hcase with ⟨hlt, -, rfl⟩ | ⟨-, hlength, -⟩
    · rw [toNat_completed]
      omega
    · rw [show sent.length = n from hsender] at hlength
      omega

/-! ### Where the receivers are -/

/-- Half a ring behind the cursor. -/
def RingBuffer.behind (buffer : RingBuffer) : UInt64 :=
  if (buffer.mask + 1) / 2 ≤ buffer.producer then buffer.producer - (buffer.mask + 1) / 2 else 0

/-- A receiver is not ahead of the cursor, and a whole ring behind when it found that out. -/
structure PlaceAt (k cursor : ℕ) (rx : SpmcReceiver) : Prop where
  le : rx.pos.toNat ≤ cursor
  lapped : rx.call = .catchingUp → rx.pos.toNat + 2 ^ k < cursor

theorem PlaceAt.mono {k cursor cursor' : ℕ} {rx : SpmcReceiver} (h : PlaceAt k cursor rx)
    (hle : cursor ≤ cursor') : PlaceAt k cursor' rx :=
  ⟨h.le.trans hle, fun hcall => (h.lapped hcall).trans_le hle⟩

/-- With a whole ring sent, half a ring behind the cursor is where it says. -/
theorem RingInv.toNat_behind (h : RingInv k n s sent) (hring : 2 ^ k < sent.length) :
    s.buffer.behind.toNat = sent.length - 2 ^ k / 2 := by
  have hle : (2 : ℕ) ^ k ≤ 2 ^ 63 := Nat.pow_le_pow_right (by omega) h.layout.le
  have hpos := Nat.two_pow_pos k
  have hmask := h.layout.mask
  have hhalf : ((s.buffer.mask + 1) / 2).toNat = 2 ^ k / 2 := by
    rw [UInt64.toNat_div, UInt64.toNat_add, hmask, show UInt64.toNat 1 = 1 from rfl,
      show UInt64.toNat 2 = 2 from rfl, Nat.sub_add_cancel hpos, Nat.mod_eq_of_lt (by omega)]
  have hbehind : (s.buffer.mask + 1) / 2 ≤ s.buffer.producer := by
    rw [UInt64.le_iff_toNat_le, hhalf, h.producer]
    omega
  rw [RingBuffer.behind, if_pos hbehind, UInt64.toNat_sub_of_le _ _ hbehind, hhalf, h.producer]

/-- Catching up moves a receiver strictly forward. -/
theorem RingInv.resync_lt (h : RingInv k n s sent) {pos : UInt64}
    (hlapped : pos.toNat + 2 ^ k < sent.length) : pos.toNat < s.buffer.behind.toNat := by
  have hpos := Nat.two_pow_pos k
  rw [h.toNat_behind (by omega)]
  omega

theorem PlaceAt.step {rx rx' : SpmcReceiver} (hat : PlaceAt k sent.length rx)
    (h : RingInv k n s sent) (hsmall : sent.length + 1 < 2 ^ 63) (hrx : rx ∈ s.receivers)
    {returned : Option (Option T)} (hstep : ReceiverStep s.buffer rx rx' returned) :
    PlaceAt k sent.length rx' := by
  cases hstep with
  | empty hcall _ _ => exact hat
  | lapped _ hv hlt => exact ⟨hat.le, fun _ => h.lapped hsmall hat.le hv hlt⟩
  | found _ _ => exact ⟨hat.le, fun hcall => by cases hcall⟩
  | word _ _ _ => exact ⟨hat.le, fun hcall => by cases hcall⟩
  | torn _ _ _ _ => exact ⟨hat.le, fun hcall => by cases hcall⟩
  | got hcall _ _ =>
    have hreading := h.receivers rx hrx
    rw [hcall] at hreading
    have hlt : rx.pos.toNat < sent.length := hreading.2.1.trans_le h.sender.le_length
    refine ⟨?_, fun hcall => by cases hcall⟩
    rw [UInt64.toNat_add, show UInt64.toNat 1 = 1 from rfl, Nat.mod_eq_of_lt (by omega)]
    exact hlt
  | resynced hcall =>
    refine ⟨?_, fun hcall => by cases hcall⟩
    have hlapped := hat.lapped hcall
    exact (h.toNat_behind (by omega)).le.trans (Nat.sub_le _ _)

end

/-! ### What is observed of one receiver -/

/-- What a call of `try_recv` returned, and where the receiver was. -/
structure Returned (T : Type) where
  pos : ℕ
  laps : ℕ
  value : Option T
  deriving DecidableEq

/-- What is known of one receiver: where it subscribed, how many loads it made, and what its calls
returned. -/
structure Watch (T : Type) where
  subscribedAt : Option ℕ
  steps : ℕ
  returns : List (Returned T)
  deriving DecidableEq

namespace Watch

variable {T : Type} {watch watch' : Watch T} {rx : SpmcReceiver}

/-- Nothing happened yet. -/
def new : Watch T := ⟨none, 0, []⟩

/-- The receiver made a load, which may have ended its call. -/
def record (watch : Watch T) (rx : SpmcReceiver) (returned : Option (Option T)) : Watch T :=
  { watch with
    steps := watch.steps + 1
    returns := watch.returns ++ returned.toList.map (⟨rx.pos.toNat, rx.laps.toNat, ·⟩) }

/-- The events the receiver got. -/
def events (watch : Watch T) : List (Returned T) :=
  watch.returns.filter fun returned => returned.value.isSome

theorem events_record_none : (watch.record rx none).events = watch.events := by
  simp [events, record]

theorem events_record_nothing : (watch.record rx (some none)).events = watch.events := by
  simp [events, record]

theorem events_record_some (value : T) : (watch.record rx (some (some value))).events =
    watch.events ++ [⟨rx.pos.toNat, rx.laps.toNat, some value⟩] := by
  simp [events, record]

/-- The events are in order, none is there twice, the first is the one where the receiver
subscribed, and none is missing, unless the lap count grew. -/
structure InOrder (watch : Watch T) : Prop where
  increasing : watch.events.IsChain fun event event' => event.pos < event'.pos
  first : ∀ event ∈ watch.events.head?, event.laps = 0 → watch.subscribedAt = some event.pos
  next : watch.events.IsChain fun event event' =>
    event'.laps = event.laps → event'.pos = event.pos + 1

/-- How what was observed of a receiver fits where it is now. -/
structure Tracks (watch : Watch T) (rx : SpmcReceiver) : Prop where
  order : watch.InOrder
  first : watch.events = [] → rx.laps.toNat = 0 → watch.subscribedAt = some rx.pos.toNat
  last : ∀ event ∈ watch.events.getLast?, event.pos < rx.pos.toNat ∧
    event.laps ≤ rx.laps.toNat ∧ (event.laps = rx.laps.toNat → rx.pos.toNat = event.pos + 1)
  /-- Every lap moved it forward, but the one that is being dealt with. -/
  laps : rx.laps.toNat ≤ rx.pos.toNat + if rx.call = .catchingUp then 1 else 0
  lapped : rx.call = .catchingUp → rx.laps.toNat ≠ 0 ∧
    ∀ event ∈ watch.events.getLast?, event.laps < rx.laps.toNat

theorem InOrder.of_events (h : watch.InOrder) (hat : watch'.subscribedAt = watch.subscribedAt)
    (hevents : watch'.events = watch.events) : watch'.InOrder :=
  ⟨hevents ▸ h.increasing, hat ▸ hevents ▸ h.first, hevents ▸ h.next⟩

/-- An event at the receiver's position comes next. -/
theorem Tracks.inOrder_some (h : watch.Tracks rx) (value : T) :
    (watch.record rx (some (some value))).InOrder := by
  refine ⟨?_, fun event hhead hlaps => ?_, ?_⟩
  · rw [events_record_some, List.isChain_append]
    refine ⟨h.order.increasing, .singleton _, fun event hlast event' hhead => ?_⟩
    obtain rfl := Option.some.inj hhead
    exact (h.last event hlast).1
  · rw [events_record_some, List.head?_append] at hhead
    cases hfirst : watch.events.head? with
    | some first =>
      rw [hfirst] at hhead
      obtain rfl := Option.some.inj hhead
      exact h.order.first _ hfirst hlaps
    | none =>
      rw [hfirst] at hhead
      obtain rfl := Option.some.inj hhead
      exact h.first (List.head?_eq_none_iff.1 hfirst) hlaps
  · rw [events_record_some, List.isChain_append]
    refine ⟨h.order.next, .singleton _, fun event hlast event' hhead hlaps => ?_⟩
    obtain rfl := Option.some.inj hhead
    exact (h.last event hlast).2.2 hlaps.symm

/-- A step that returns no event and leaves the receiver where it is. -/
theorem Tracks.stay (h : watch.Tracks rx) {rx' : SpmcReceiver} (hpos : rx'.pos = rx.pos)
    (hlaps : rx'.laps = rx.laps) (hcall : rx.call ≠ .catchingUp) (hcall' : rx'.call ≠ .catchingUp)
    (hat : watch'.subscribedAt = watch.subscribedAt) (hevents : watch'.events = watch.events) :
    watch'.Tracks rx' := by
  have hle := h.laps
  rw [if_neg hcall] at hle
  refine ⟨h.order.of_events hat hevents, ?_, ?_, ?_, fun hup => absurd hup hcall'⟩
  · rw [hevents, hat, hpos, hlaps]
    exact h.first
  · rw [hevents, hpos, hlaps]
    exact h.last
  · rw [hlaps, hpos, if_neg hcall']
    exact hle

/-- A receiver that has just subscribed. -/
theorem Tracks.new (hevents : watch.events = [])
    (hat : watch.subscribedAt = some rx.pos.toNat) (hlaps : rx.laps = 0) (hcall : rx.call = .idle) :
    watch.Tracks rx := by
  refine ⟨⟨?_, ?_, ?_⟩, fun _ _ => hat, ?_, ?_, fun hup => ?_⟩
  · rw [hevents]; exact .nil
  · rw [hevents]; exact fun event hhead => by cases hhead
  · rw [hevents]; exact .nil
  · rw [hevents]; exact fun event hlast => by cases hlast
  · rw [hlaps]; exact Nat.zero_le _
  · rw [hcall] at hup; cases hup

/-- What was observed fits the receiver, if it has subscribed. -/
def Fits (watch : Watch T) : Option SpmcReceiver → Prop
  | none => watch = .new
  | some rx => watch.Tracks rx

end Watch

/-- What the next `calls` calls return, if these events are waiting. -/
def replay {T : Type} (events : List T) (calls : ℕ) : List (Option T) :=
  (List.range calls).map (events[·]?)

theorem replay_succ {T : Type} (events : List T) (calls : ℕ) :
    replay events (calls + 1) = replay events calls ++ [events[calls]?] := by
  rw [replay, List.range_succ, List.map_append, List.map_singleton, replay]

section

variable {T : Type} [WordSafe T] {k n : ℕ} {s : Channel T} {sent : List T}

theorem Watch.Tracks.step {watch : Watch T} {rx rx' : SpmcReceiver} (htracks : watch.Tracks rx)
    (h : RingInv k n s sent) (hsmall : sent.length + 1 < 2 ^ 63)
    (hat : PlaceAt k sent.length rx) {returned : Option (Option T)}
    (hstep : ReceiverStep s.buffer rx rx' returned) : (watch.record rx returned).Tracks rx' := by
  have hle := htracks.laps
  cases hstep with
  | empty hcall _ _ =>
    exact htracks.stay rfl rfl (hcall ▸ Receiving.noConfusion) (hcall ▸ Receiving.noConfusion) rfl
      events_record_nothing
  | lapped hcall _ _ =>
    rw [if_neg (hcall ▸ Receiving.noConfusion)] at hle
    -- laps never outnumber the messages sent, so the count does not wrap
    have hlaps : (rx.laps + 1).toNat = rx.laps.toNat + 1 := by
      rw [UInt64.toNat_add, show UInt64.toNat 1 = 1 from rfl, Nat.mod_eq_of_lt]
      have := hat.le
      omega
    refine ⟨htracks.order.of_events rfl events_record_none, ?_, ?_, ?_, fun _ => ⟨?_, ?_⟩⟩
    · rw [hlaps]
      exact fun _ hzero => absurd hzero (Nat.succ_ne_zero _)
    · rw [events_record_none, hlaps]
      intro event hlast
      obtain ⟨hpos, hle', -⟩ := htracks.last event hlast
      exact ⟨hpos, by omega, fun heq => by omega⟩
    · rw [if_pos rfl, hlaps]
      exact Nat.succ_le_succ hle
    · rw [hlaps]
      exact Nat.succ_ne_zero _
    · rw [events_record_none, hlaps]
      exact fun event hlast => Nat.lt_succ_of_le (htracks.last event hlast).2.1
  | found hcall _ =>
    exact htracks.stay rfl rfl (hcall ▸ Receiving.noConfusion) Receiving.noConfusion rfl
      events_record_none
  | word hcall _ _ =>
    exact htracks.stay rfl rfl (hcall ▸ Receiving.noConfusion) Receiving.noConfusion rfl
      events_record_none
  | torn hcall _ _ _ =>
    exact htracks.stay rfl rfl (hcall ▸ Receiving.noConfusion) Receiving.noConfusion rfl
      events_record_nothing
  | got hcall _ _ =>
    rw [if_neg (hcall ▸ Receiving.noConfusion)] at hle
    have hpos : (rx.pos + 1).toNat = rx.pos.toNat + 1 := by
      rw [UInt64.toNat_add, show UInt64.toNat 1 = 1 from rfl, Nat.mod_eq_of_lt]
      have := hat.le
      omega
    refine ⟨htracks.inOrder_some _, fun hnil => ?_, ?_, ?_, fun hcall => by cases hcall⟩
    · rw [events_record_some] at hnil
      exact absurd hnil (List.append_ne_nil_of_right_ne_nil _ (List.cons_ne_nil _ _))
    · rw [events_record_some, List.getLast?_concat]
      intro event hlast
      obtain rfl := Option.some.inj hlast
      exact ⟨by simp only [hpos]; omega, le_rfl, fun _ => hpos⟩
    · rw [if_neg Receiving.noConfusion]
      simp only [hpos]
      omega
  | resynced hcall =>
    -- what was returned last is before the place the receiver jumps to
    have hforward : rx.pos.toNat < s.buffer.behind.toNat := h.resync_lt (hat.lapped hcall)
    obtain ⟨hzero, hgrew⟩ := htracks.lapped hcall
    rw [if_pos hcall] at hle
    refine ⟨htracks.order.of_events rfl events_record_nothing, fun _ hlaps => absurd hlaps hzero,
      ?_, ?_, fun hcall => by cases hcall⟩
    · rw [events_record_nothing]
      intro event hlast
      have hlaps := hgrew event hlast
      have hpos := (htracks.last event hlast).1
      exact ⟨hpos.trans hforward, hlaps.le, fun heq => absurd heq hlaps.ne⟩
    · exact hle.trans (hforward.trans_le (Nat.le_add_right _ _))

/-- What a step adds to what is known of the `i`-th receiver. -/
def Watch.after (i : ℕ) (s : Channel T) (label : RingLabel T) (returned : Option (Option T))
    (watch : Watch T) : Watch T :=
  match label with
  | .subscribe =>
    if s.receivers.length = i then { watch with subscribedAt := some s.buffer.producer.toNat }
    else watch
  | .receive j =>
    match s.receivers[i]? with
    | some rx => if j = i then watch.record rx returned else watch
    | none => watch
  | _ => watch

/-- The ring, the values sent, and what is observed of the `i`-th receiver. -/
def observed (T : Type) [WordSafe T] (i : ℕ) :
    LTS (Channel T × List T × Watch T) (RingLabel T) where
  step s label s' := s'.2.1 = s.2.1 ++ label.sent ∧
    ∃ returned, s.1.perform label = some (.ok (s'.1, returned)) ∧
      s'.2.2 = s.2.2.after i s.1 label returned

/-! ### Every run -/

/-- The ring, and where its receivers are. -/
structure PlacedInv (k n : ℕ) (s : Channel T) (sent : List T) : Prop where
  ring : RingInv k n s sent
  places : ∀ rx ∈ s.receivers, PlaceAt k sent.length rx

/-- What holds of the ring and of what is observed. -/
structure ObservedInv (k n i : ℕ) (s : Channel T) (sent : List T) (watch : Watch T) : Prop where
  placed : PlacedInv k n s sent
  fits : watch.Fits s.receivers[i]?

/-- What a step did to the receivers. -/
theorem Channel.receivers_of_perform {label : RingLabel T} {s' : Channel T}
    {returned : Option (Option T)} (h : s.perform label = some (.ok (s', returned))) :
    (s'.receivers = s.receivers ∧ ∀ (i : ℕ) (watch : Watch T),
        watch.after i s label returned = watch) ∨
      (label = .subscribe ∧ s'.receivers = s.receivers ++ [⟨s.buffer.producer, 0, .idle⟩]) ∨
      ∃ j rx rx', label = .receive j ∧ s.receivers[j]? = some rx ∧
        ReceiverStep s.buffer rx rx' returned ∧ s'.receivers = s.receivers.set j rx' := by
  cases label with
  | send value =>
    simp only [Channel.perform] at h
    split at h
    · obtain ⟨rfl, -⟩ := Prod.mk.inj (Except.ok.inj (Option.some.inj h))
      exact .inl ⟨rfl, fun _ _ => rfl⟩
    · cases h
  | store =>
    simp only [Channel.perform] at h
    split at h
    · cases h
    · obtain ⟨⟨buffer, sending⟩, -, hrest⟩ := Exec.bind_eq_ok.1 (Option.some.inj h)
      obtain ⟨rfl, -⟩ := Prod.mk.inj (Exec.pure_eq_ok.1 hrest)
      exact .inl ⟨rfl, fun _ _ => rfl⟩
  | subscribe =>
    obtain ⟨rfl, -⟩ := Prod.mk.inj (Except.ok.inj (Option.some.inj h))
    exact .inr (.inl ⟨rfl, rfl⟩)
  | receive j =>
    simp only [Channel.perform] at h
    split at h
    · cases h
    · next rx hrx =>
      obtain ⟨⟨rx', _⟩, hload, hrest⟩ := Exec.bind_eq_ok.1 (Option.some.inj h)
      obtain ⟨rfl, rfl⟩ := Prod.mk.inj (Exec.pure_eq_ok.1 hrest)
      exact .inr (.inr ⟨j, rx, rx', rfl, hrx, receiverStep_of_step hload, rfl⟩)

theorem PlacedInv.step (h : PlacedInv k n s sent) {label : RingLabel T} {s' : Channel T}
    {returned : Option (Option T)} (hsmall : (sent ++ label.sent).length + 1 < 2 ^ 63)
    (hstep : s.perform label = some (.ok (s', returned))) :
    ∃ n', PlacedInv k n' s' (sent ++ label.sent) := by
  have hlen : sent.length ≤ (sent ++ label.sent).length := by
    rw [List.length_append]
    exact Nat.le_add_right _ _
  -- positions are at most the number of messages, which is below 2 ^ 63
  have hguard : SmallPositions s label := by
    cases label with
    | send value =>
      have hproducer := h.ring.producer
      rw [RingLabel.sent, List.length_append, List.length_singleton] at hsmall
      rw [SmallPositions, hproducer, UInt64.size]
      omega
    | receive j =>
      intro rx hrx
      have := (h.places rx (List.mem_of_getElem? hrx)).le
      rw [UInt64.size]
      omega
    | _ => trivial
  obtain ⟨n', hring⟩ := h.ring.perform hguard hstep
  refine ⟨n', hring, fun rx hrx => ?_⟩
  rcases Channel.receivers_of_perform hstep with ⟨hsame, -⟩ | ⟨rfl, hnew⟩ |
    ⟨j, old, new, rfl, hold, hload, hset⟩
  · exact (h.places rx (hsame ▸ hrx)).mono hlen
  · rcases List.mem_append.1 (hnew ▸ hrx) with hrx | hrx
    · exact (h.places rx hrx).mono hlen
    · rw [List.mem_singleton.1 hrx]
      exact ⟨h.ring.producer.le.trans hlen, fun hcall => by cases hcall⟩
  · simp only [RingLabel.sent, List.append_nil] at hsmall ⊢
    rcases List.mem_or_eq_of_mem_set (hset ▸ hrx) with hrx | rfl
    · exact h.places rx hrx
    · exact (h.places old (List.mem_of_getElem? hold)).step h.ring hsmall
        (List.mem_of_getElem? hold) hload

theorem ObservedInv.step {i : ℕ} {watch : Watch T} (h : ObservedInv k n i s sent watch)
    {label : RingLabel T} {s' : Channel T} {returned : Option (Option T)}
    (hsmall : (sent ++ label.sent).length + 1 < 2 ^ 63)
    (hstep : s.perform label = some (.ok (s', returned))) :
    ∃ n', ObservedInv k n' i s' (sent ++ label.sent) (watch.after i s label returned) := by
  obtain ⟨n', hplaced⟩ := h.placed.step hsmall hstep
  refine ⟨n', hplaced, ?_⟩
  rcases Channel.receivers_of_perform hstep with ⟨hsame, hafter⟩ | ⟨rfl, hnew⟩ |
    ⟨j, rx, rx', rfl, hrx, hload, hset⟩
  · rw [hsame, hafter]
    exact h.fits
  · rw [hnew]
    simp only [Watch.after]
    -- the new receiver is a later one, the observed one, or an earlier one
    rcases Nat.lt_trichotomy s.receivers.length i with hlt | rfl | hlt
    · have hnone : s.receivers[i]? = none := List.getElem?_eq_none hlt.le
      rw [if_neg hlt.ne, List.getElem?_eq_none (by rw [List.length_append]; exact hlt)]
      exact hnone ▸ h.fits
    · have hnew : watch = .new := by
        have hfits := h.fits
        rwa [List.getElem?_eq_none le_rfl] at hfits
      rw [if_pos rfl, List.getElem?_concat_length, hnew]
      exact .new rfl rfl rfl rfl
    · rw [if_neg hlt.ne', List.getElem?_append_left hlt]
      exact h.fits
  · simp only [RingLabel.sent, List.append_nil] at hsmall
    have hfits := h.fits
    simp only [hset, Watch.after]
    by_cases hi : j = i
    · subst hi
      rw [hrx] at hfits
      rw [List.getElem?_set_self (List.getElem?_eq_some_iff.1 hrx).1]
      simp only [hrx, if_true]
      exact hfits.step h.placed.ring hsmall (h.placed.places rx (List.mem_of_getElem? hrx)) hload
    · rw [List.getElem?_set_ne hi]
      simp only [if_neg hi]
      split <;> exact hfits

/-! ### Catching up while the sender is idle -/

/-- How many loads a call has made. -/
def Receiving.progress : Receiving → ℕ
  | .reading _ _ i => i + 1
  | _ => 0

/-- A receiver that caught up gets the last half ring of events, and nothing after them; every call
takes at most a load for each word and two for the versions. -/
structure ReplaysAt (k : ℕ) (sent : List T) (watch : Watch T) (rx : SpmcReceiver) : Prop where
  returned : watch.returns.map Returned.value =
    replay (sent.drop (sent.length - 2 ^ k / 2)) watch.returns.length
  pos : rx.pos.toNat = sent.length - 2 ^ k / 2 + min watch.returns.length (2 ^ k / 2)
  call : rx.call ≠ .catchingUp
  steps : watch.steps ≤ watch.returns.length * (WordSafe.words T + 2) + rx.call.progress

theorem Channel.sending_of_quiet {label : RingLabel T} (hidle : s.sending = .idle)
    (hquiet : label.sent = []) {s' : Channel T} {returned : Option (Option T)}
    (hstep : s.perform label = some (.ok (s', returned))) : s'.sending = .idle := by
  cases label with
  | send value => cases hquiet
  | store =>
    simp only [Channel.perform, hidle] at hstep
    cases hstep
  | subscribe =>
    obtain ⟨rfl, -⟩ := Prod.mk.inj (Except.ok.inj (Option.some.inj hstep))
    exact hidle
  | receive j =>
    simp only [Channel.perform] at hstep
    split at hstep
    · cases hstep
    · obtain ⟨⟨rx', _⟩, -, hrest⟩ := Exec.bind_eq_ok.1 (Option.some.inj hstep)
      obtain ⟨rfl, -⟩ := Prod.mk.inj (Exec.pure_eq_ok.1 hrest)
      exact hidle

/-- A load in the middle of a call. -/
theorem ReplaysAt.load {watch : Watch T} {rx rx' : SpmcReceiver} (h : ReplaysAt k sent watch rx)
    (hpos : rx'.pos = rx.pos) (hcall : rx'.call ≠ .catchingUp)
    (hprogress : rx'.call.progress = rx.call.progress + 1) :
    ReplaysAt k sent (watch.record rx none) rx' := by
  have hreturns : (watch.record rx none).returns = watch.returns := List.append_nil _
  have hsteps := h.steps
  refine ⟨hreturns ▸ h.returned, by rw [hpos, hreturns, h.pos], hcall, ?_⟩
  rw [hreturns, hprogress]
  exact Nat.succ_le_succ hsteps

/-- The last load of a call. -/
theorem ReplaysAt.ret {watch : Watch T} {rx rx' : SpmcReceiver} (h : ReplaysAt k sent watch rx)
    {value : Option T} (hcall : rx'.call = .idle)
    (hprogress : rx.call.progress ≤ WordSafe.words T + 1)
    (hvalue : (sent.drop (sent.length - 2 ^ k / 2))[watch.returns.length]? = value)
    (hpos : rx'.pos.toNat =
      sent.length - 2 ^ k / 2 + min (watch.returns.length + 1) (2 ^ k / 2)) :
    ReplaysAt k sent (watch.record rx (some value)) rx' := by
  have hreturns : (watch.record rx (some value)).returns =
      watch.returns ++ [⟨rx.pos.toNat, rx.laps.toNat, value⟩] := rfl
  have hlength : (watch.record rx (some value)).returns.length = watch.returns.length + 1 := by
    rw [hreturns, List.length_append, List.length_singleton]
  have hsteps := h.steps
  refine ⟨?_, hlength ▸ hpos, by rw [hcall]; exact Receiving.noConfusion, ?_⟩
  · rw [hlength, replay_succ, hreturns, List.map_append, List.map_singleton, h.returned, hvalue]
  · rw [hlength, hcall, Nat.add_mul]
    have : (watch.record rx (some value)).steps = watch.steps + 1 := rfl
    simp only [Receiving.progress]
    omega

theorem ReplaysAt.step {watch : Watch T} {rx rx' : SpmcReceiver} (h : ReplaysAt k sent watch rx)
    (hring : RingInv k sent.length s sent) (hidle : s.sending = .idle)
    (hsmall : sent.length + 1 < 2 ^ 63) (hhalf : 2 ^ k / 2 ≤ sent.length)
    (hrx : rx ∈ s.receivers) {returned : Option (Option T)}
    (hload : ReceiverStep s.buffer rx rx' returned) :
    ReplaysAt k sent (watch.record rx returned) rx' := by
  have hpos := h.pos
  have hat := hring.receivers rx hrx
  have hlen : 2 ^ k / 2 ≤ 2 ^ k := Nat.div_le_self _ _
  -- the version at the receiver's position, before the cursor and at it
  have hcurrent : rx.pos.toNat < sent.length →
      s.buffer.versions[s.buffer.slot rx.pos]? = some (completed rx.pos) := fun hlt =>
    hring.current hidle hlt (by omega)
  have hcursor : ∀ v, rx.pos.toNat = sent.length →
      s.buffer.versions[s.buffer.slot rx.pos]? = some v → v < completed rx.pos := fun v heq hv =>
    hring.at_cursor hidle hsmall heq hv
  cases hload with
  | @empty v1 hcall hv hlt =>
    have hend : rx.pos.toNat = sent.length := by
      by_contra hne
      rw [hcurrent (by omega)] at hv
      exact UInt64.lt_irrefl _ (Option.some.inj hv ▸ hlt)
    refine h.ret hcall (by rw [hcall]; exact Nat.zero_le _) ?_ (by omega)
    rw [List.getElem?_drop, List.getElem?_eq_none (by omega)]
  | @lapped v1 hcall hv hlt =>
    by_cases hend : rx.pos.toNat < sent.length
    · rw [hcurrent hend] at hv
      exact absurd (Option.some.inj hv ▸ hlt) (UInt64.lt_irrefl _)
    · exact absurd (hcursor v1 (by omega) hv) (UInt64.lt_asymm hlt)
  | found hcall _ => exact h.load rfl Receiving.noConfusion (by rw [hcall]; rfl)
  | word hcall _ _ => exact h.load rfl Receiving.noConfusion (by rw [hcall]; rfl)
  | torn hcall _ hv hne =>
    rw [hcall] at hat
    obtain ⟨hv1, hlt, -⟩ := hat
    rw [hcurrent hlt] at hv
    exact absurd (hv1.trans (Option.some.inj hv)) hne
  | @got v1 staged i hcall hi hv =>
    have hvalue := (hring.receive hrx (by rw [UInt64.size]; omega) (.got hcall hi hv)).2 _ rfl
    rw [hcall] at hat
    obtain ⟨-, hlt, hle, -⟩ := hat
    refine h.ret rfl (by rw [hcall]; exact Nat.succ_le_succ hle) ?_ ?_
    · rw [List.getElem?_drop, ← hvalue, hpos]
      congr 1
      omega
    · rw [UInt64.toNat_add, show UInt64.toNat 1 = 1 from rfl, Nat.mod_eq_of_lt (by omega)]
      omega
  | resynced hcall => exact absurd hcall h.call

/-- Every load of a receiver finds its slot and its word. -/
theorem RingInv.step_ok (h : RingInv k n s sent) (rx : SpmcReceiver) :
    ∃ next : SpmcReceiver × Option (Option T), rx.step s.buffer = .ok next := by
  have hslot : s.buffer.slot rx.pos < s.buffer.versions.length :=
    h.layout.versions ▸ h.layout.slot_lt rx.pos
  have hversion : s.buffer.loadVersion rx.pos = .ok s.buffer.versions[s.buffer.slot rx.pos] :=
    RingBuffer.loadVersion_eq_ok.2 (List.getElem?_eq_getElem hslot)
  unfold SpmcReceiver.step
  cases rx.call with
  | idle =>
    simp only [hversion, Exec.ok_bind]
    split
    · exact ⟨_, rfl⟩
    · split <;> exact ⟨_, rfl⟩
  | catchingUp => exact ⟨_, rfl⟩
  | reading v1 staged i =>
    dsimp only
    split
    · next hi =>
      have hword : s.buffer.wordBase rx.pos + i < s.buffer.words.length := by
        have hroom := Nat.mul_le_mul_right s.buffer.stride (h.layout.slot_lt rx.pos)
        have hstride := h.layout.stride
        rw [Nat.succ_mul] at hroom
        rw [h.layout.words, RingBuffer.wordBase]
        omega
      have hload : s.buffer.loadWord rx.pos i = .ok s.buffer.words[s.buffer.wordBase rx.pos + i] :=
        RingBuffer.loadWord_eq_ok.2 (List.getElem?_eq_getElem hword)
      simp only [hload, Exec.ok_bind]
      exact ⟨_, rfl⟩
    · simp only [hversion, Exec.ok_bind]
      split <;> exact ⟨_, rfl⟩

theorem RingInv.receive_ok (h : RingInv k n s sent) {i : ℕ} {rx : SpmcReceiver}
    (hrx : s.receivers[i]? = some rx) :
    ∃ s' returned, s.perform (.receive i) = some (.ok (s', returned)) := by
  obtain ⟨⟨rx', returned⟩, hok⟩ := h.step_ok rx
  refine ⟨{ s with receivers := s.receivers.set i rx' }, returned, ?_⟩
  simp only [Channel.perform, hrx, hok, Exec.ok_bind]
  rfl

/-- A receiver that is catching up, and nothing is sent from there on. -/
structure Replaying (k i : ℕ) (sent : List T) (s : Channel T) (watch : Watch T) : Prop where
  idle : s.sending = .idle
  placed : PlacedInv k sent.length s sent
  receiver : ∃ rx, s.receivers[i]? = some rx ∧ ReplaysAt k sent watch rx

theorem PlacedInv.of_idle (h : PlacedInv k n s sent) (hidle : s.sending = .idle) :
    PlacedInv k sent.length s sent := by
  have hsender := h.ring.sender
  rw [hidle] at hsender
  rwa [show sent.length = n from hsender]

theorem Replaying.step {i : ℕ} {watch : Watch T} (h : Replaying k i sent s watch)
    (hsmall : sent.length + 1 < 2 ^ 63) (hhalf : 2 ^ k / 2 ≤ sent.length) {label : RingLabel T}
    (hquiet : label.sent = []) {s' : Channel T} {returned : Option (Option T)}
    (hstep : s.perform label = some (.ok (s', returned))) :
    Replaying k i sent s' (watch.after i s label returned) := by
  have hidle := Channel.sending_of_quiet h.idle hquiet hstep
  obtain ⟨n', hplaced⟩ := h.placed.step (by rwa [hquiet, List.append_nil]) hstep
  rw [hquiet, List.append_nil] at hplaced
  refine ⟨hidle, hplaced.of_idle hidle, ?_⟩
  obtain ⟨rx, hrx, hat⟩ := h.receiver
  rcases Channel.receivers_of_perform hstep with ⟨hsame, hafter⟩ | ⟨rfl, hnew⟩ |
    ⟨j, other, rx', rfl, hother, hload, hset⟩
  · rw [hsame, hafter]
    exact ⟨rx, hrx, hat⟩
  · have hlt := (List.getElem?_eq_some_iff.1 hrx).1
    refine ⟨rx, by rw [hnew, List.getElem?_append_left hlt, hrx], ?_⟩
    simp only [Watch.after, if_neg hlt.ne']
    exact hat
  · simp only [hset, Watch.after, hrx]
    by_cases hi : j = i
    · subst hi
      obtain rfl := Option.some.inj (hrx.symm.trans hother)
      rw [List.getElem?_set_self (List.getElem?_eq_some_iff.1 hrx).1, if_pos rfl]
      exact ⟨rx', rfl, hat.step h.placed.ring h.idle hsmall hhalf (List.mem_of_getElem? hrx) hload⟩
    · rw [List.getElem?_set_ne hi, if_neg hi]
      exact ⟨rx, hrx, hat⟩

/-- While nothing is sent, the calls of the `i`-th receiver return these events one after the other
and then nothing; no load fails, and every call returns after a load for each word and two more. -/
def Returns (i : ℕ) (s : Channel T) (sent events : List T) : Prop :=
  ∀ s' sent' watch, ((observed T i).guard fun _ label => label.sent = []).Reach (s, sent, .new)
      (s', sent', watch) →
    watch.returns.map Returned.value = replay events watch.returns.length ∧
      watch.steps / (WordSafe.words T + 2) ≤ watch.returns.length ∧
      ∃ s'' returned, s'.perform (.receive i) = some (.ok (s'', returned))

theorem Replaying.returns {i : ℕ} (h : Replaying k i sent s .new)
    (hsmall : sent.length + 1 < 2 ^ 63) (hhalf : 2 ^ k / 2 ≤ sent.length) :
    Returns i s sent (sent.drop (sent.length - 2 ^ k / 2)) := by
  intro s' sent' watch hreach
  obtain ⟨-, hinv⟩ : sent' = sent ∧ Replaying k i sent s' watch :=
    hreach.invariant (I := fun s => s.2.1 = sent ∧ Replaying k i sent s.1 s.2.2) ⟨rfl, h⟩
      fun s label s' _ ⟨hsent, hinv⟩ ⟨hquiet, hsent', returned, hstep, hwatch⟩ => by
        refine ⟨?_, hwatch ▸ hinv.step hsmall hhalf hquiet hstep⟩
        rw [hsent', hquiet, List.append_nil, hsent]
  obtain ⟨rx, hrx, hat⟩ := hinv.receiver
  refine ⟨hat.returned, ?_, hinv.placed.ring.receive_ok hrx⟩
  have hprogress : rx.call.progress < WordSafe.words T + 2 := by
    have hreading := hinv.placed.ring.receivers rx (List.mem_of_getElem? hrx)
    cases hcall : rx.call with
    | idle => exact Nat.succ_pos _
    | catchingUp => exact Nat.succ_pos _
    | reading v1 staged j =>
      rw [hcall] at hreading
      have := hreading.2.2.1
      simp only [Receiving.progress]
      omega
  have hpos : 0 < WordSafe.words T + 2 := Nat.succ_pos _
  have hsteps := hat.steps
  refine Nat.lt_succ_iff.1 ((Nat.div_lt_iff_lt_mul hpos).2 ?_)
  rw [Nat.succ_mul]
  omega

/-- **Events come in order.**  In every run with fewer sends than versions can count, what a
receiver got is in the order of the sends and without duplicates, beginning where it subscribed and
without a gap unless its lap count grew; a lap moves it strictly forward; and after a lap while the
sender is idle it gets the last half ring of events, and then nothing. -/
theorem ring_order {capacity : UInt64} {start : Channel T}
    (hstart : channel T capacity = some start) {i : ℕ} {watch : Watch T}
    (hreach : (observed T i).Reach (start, [], .new) (s, sent, watch))
    (hsmall : sent.length + 1 < 2 ^ 63) :
    watch.InOrder ∧
      ∀ rx s' returned, s.receivers[i]? = some rx → rx.call = .catchingUp →
        s.perform (.receive i) = some (.ok (s', returned)) →
        (∃ rx', s'.receivers[i]? = some rx' ∧ rx.pos < rx'.pos) ∧
          (s.sending = .idle → s.buffer.versions.length / 2 ≤ sent.length ∧
            Returns i s' sent (sent.drop (sent.length - s.buffer.versions.length / 2))) := by
  obtain ⟨k, hinit⟩ := RingInv.channel hstart
  have hnone : start.receivers = [] := by
    unfold channel at hstart
    split at hstart
    · rw [← Option.some.inj hstart]
    · cases hstart
  have hobserved : ∃ n, ObservedInv k n i s sent watch := by
    refine hreach.invariant
      (I := fun s => s.2.1.length + 1 < 2 ^ 63 → ∃ n, ObservedInv k n i s.1 s.2.1 s.2.2)
      (fun _ => ⟨0, ⟨hinit, by simp [hnone]⟩, by rw [hnone]; rfl⟩) ?_ hsmall
    intro s label s' _ hinv ⟨hsent, returned, hstep, hwatch⟩ hsmall
    rw [hsent] at hsmall ⊢
    have hless := hsmall
    rw [List.length_append] at hless
    obtain ⟨n, hinv⟩ := hinv (by omega)
    exact hwatch ▸ hinv.step hsmall hstep
  obtain ⟨n, hinv⟩ := hobserved
  refine ⟨?_, fun rx s' returned hrx hcall hstep => ?_⟩
  · have hfits := hinv.fits
    cases hrx : s.receivers[i]? with
    | none =>
      rw [hrx] at hfits
      rw [show watch = .new from hfits]
      exact ⟨.nil, (fun event hhead => by cases hhead), .nil⟩
    | some rx =>
      rw [hrx] at hfits
      exact (show watch.Tracks rx from hfits).order
  · have hplace := hinv.placed.places rx (List.mem_of_getElem? hrx)
    have hforward := hinv.placed.ring.resync_lt (hplace.lapped hcall)
    -- the step after a lap is the jump to half a ring behind the sender
    have hnext : s' = { s with
        receivers := s.receivers.set i ({ rx with pos := s.buffer.behind, call := .idle }) } := by
      simp only [Channel.perform, hrx, SpmcReceiver.step, hcall, Exec.ok_bind] at hstep
      obtain ⟨rfl, -⟩ := Prod.mk.inj (Except.ok.inj (Option.some.inj hstep))
      rfl
    have hrx' : s'.receivers[i]? = some { rx with pos := s.buffer.behind, call := .idle } := by
      rw [hnext]
      exact List.getElem?_set_self (List.getElem?_eq_some_iff.1 hrx).1
    refine ⟨⟨_, hrx', UInt64.lt_iff_toNat_lt.2 hforward⟩, fun hidle => ?_⟩
    have hlapped := hplace.lapped hcall
    have hdiv : 2 ^ k / 2 ≤ 2 ^ k := Nat.div_le_self _ _
    rw [hinv.placed.ring.layout.versions]
    refine ⟨by omega, Replaying.returns ⟨?_, ?_, _, hrx', ?_⟩ hsmall (by omega)⟩
    · rw [hnext]
      exact hidle
    · have hquiet : (RingLabel.receive i : RingLabel T).sent = [] := rfl
      obtain ⟨n', hplaced⟩ := hinv.placed.step (by rwa [hquiet, List.append_nil]) hstep
      rw [hquiet, List.append_nil] at hplaced
      exact hplaced.of_idle (by rw [hnext]; exact hidle)
    · refine ⟨rfl, ?_, Receiving.noConfusion, Nat.zero_le _⟩
      rw [show (Watch.new (T := T)).returns.length = 0 from rfl, Nat.zero_min, Nat.add_zero]
      exact hinv.placed.ring.toNat_behind (by omega)

/-- The ring after these steps, and what is observed of the `i`-th receiver. -/
def Channel.observe (i : ℕ) (s : Channel T) (sent : List T) (watch : Watch T) :
    List (RingLabel T) → Option (Channel T × List T × Watch T)
  | [] => some (s, sent, watch)
  | label :: labels =>
    match s.perform label with
    | some (.ok (s', returned)) =>
      s'.observe i (sent ++ label.sent) (watch.after i s label returned) labels
    | _ => none

theorem Channel.reach_of_observe {i : ℕ} {watch : Watch T} {labels : List (RingLabel T)}
    {s' : Channel T × List T × Watch T} (h : s.observe i sent watch labels = some s') :
    (observed T i).Reach (s, sent, watch) s' := by
  induction labels generalizing s sent watch with
  | nil => exact Option.some.inj h ▸ .refl
  | cons label labels ih =>
    rw [Channel.observe] at h
    split at h
    · next mid returned hstep =>
      have hfirst : (observed T i).step (s, sent, watch) label
          (mid, sent ++ label.sent, watch.after i s label returned) := ⟨rfl, returned, hstep, rfl⟩
      exact (LTS.Reach.refl.tail hfirst).trans (ih h)
    · cases h

end

/-! ### A lap -/

/-- A receiver subscribes, three events are sent, and the receiver finds that it was lapped. -/
def lapsFirst : List (RingLabel JobEvent) :=
  .subscribe :: (List.replicate 3 (.send firstEvent :: List.replicate 6 .store)).flatten ++
    [.receive 0]

/-- The ring as the receiver is about to catch up. -/
def lappedRing : Channel JobEvent where
  buffer := ⟨1, [6, 4], [0, 0, 1, 7, 0, 0, 0, 0, 0, 0, 1, 7, 0, 0, 0, 0], 8, 3⟩
  sending := .idle
  receivers := [⟨0, 1, .catchingUp⟩]

/-- It gets the last of the three events, and then nothing. -/
theorem lappedRing_returns : ∃ s' returned,
    lappedRing.perform (.receive 0) = some (.ok (s', returned)) ∧
      Returns 0 s' [firstEvent, firstEvent, firstEvent] [firstEvent] := by
  have hstart : channel JobEvent 1 = some twoSlots := by decide +kernel
  have hrun : twoSlots.observe 0 [] .new lapsFirst =
      some (lappedRing, [firstEvent, firstEvent, firstEvent], ⟨some 0, 1, []⟩) := by decide +kernel
  have horder := ring_order hstart (Channel.reach_of_observe hrun) (by decide)
  exact ⟨_, _, rfl, ((horder.2 _ _ _ rfl rfl rfl).2 rfl).2⟩

end Roster
