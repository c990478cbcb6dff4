import Roster.Broadcast.Order

/-!
# What a receiver has got

A receiver that was never lapped has got everything that was sent since it subscribed, up to where
it is: nothing else, in order, and each event once (`received_of_unlapped`).
-/

namespace Roster

variable {T : Type}

/-- The values a receiver got, in order. -/
def Watch.received (watch : Watch T) : List T := watch.returns.filterMap Returned.value

/-- As long as it was not lapped, the receiver got everything from where it subscribed to where it
is. -/
def Watch.Delivers (watch : Watch T) (sent : List T) (rx : SpmcReceiver) : Prop :=
  rx.laps = 0 → ∃ first, watch.subscribedAt = some first ∧ first ≤ rx.pos.toNat ∧
    rx.pos.toNat ≤ sent.length ∧ watch.received = (sent.take rx.pos.toNat).drop first

theorem Watch.received_record (watch : Watch T) (rx : SpmcReceiver) (returned : Option (Option T)) :
    (watch.record rx returned).received = watch.received ++ (returned.bind id).toList := by
  rw [received, record, List.filterMap_append, ← received]
  congr 1
  rcases returned with _ | _ | value <;> rfl

/-- More is sent, while the receiver makes no step. -/
theorem Watch.Delivers.append {watch : Watch T} {sent : List T} {rx : SpmcReceiver}
    (h : watch.Delivers sent rx) (more : List T) : watch.Delivers (sent ++ more) rx := by
  intro hlaps
  obtain ⟨first, hfirst, hle, hpos, hreceived⟩ := h hlaps
  refine ⟨first, hfirst, hle, ?_, ?_⟩
  · rw [List.length_append]
    exact hpos.trans (Nat.le_add_right _ _)
  · rw [List.take_append_of_le_length hpos, hreceived]

variable [WordSafe T] {k n i : ℕ} {s : Channel T} {sent : List T}

/-- The receiver makes a load. -/
theorem Watch.Delivers.step {watch : Watch T} {rx rx' : SpmcReceiver}
    (h : watch.Delivers sent rx) (htracks : watch.Tracks rx) (hring : RingInv k n s sent)
    (hsmall : sent.length + 1 < 2 ^ 63) (hat : PlaceAt k sent.length rx)
    (hmem : rx ∈ s.receivers) {returned : Option (Option T)}
    (hstep : ReceiverStep s.buffer rx rx' returned) :
    (watch.record rx returned).Delivers sent rx' := by
  intro hlaps
  rw [Watch.received_record]
  have hstay : ∀ rx' : SpmcReceiver, rx'.laps = 0 → rx'.pos = rx.pos → rx'.laps = rx.laps →
      ∃ first, watch.subscribedAt = some first ∧ first ≤ rx'.pos.toNat ∧
        rx'.pos.toNat ≤ sent.length ∧
        watch.received ++ [] = (sent.take rx'.pos.toNat).drop first := by
    intro rx' hlaps hpos heq
    rw [hpos, List.append_nil]
    exact h (heq ▸ hlaps)
  have hgot := hring.receive hmem (by have := hat.le; rw [UInt64.size]; omega) hstep
  cases hstep with
  | empty _ _ _ => exact hstay _ hlaps rfl rfl
  | lapped _ _ _ =>
    -- laps never outnumber the messages sent, so the count does not wrap
    have hle := htracks.laps
    have hcount := hat.le
    have hzero := congrArg UInt64.toNat hlaps
    dsimp only at hzero
    rw [UInt64.toNat_add, show UInt64.toNat 1 = 1 from rfl, Nat.mod_eq_of_lt] at hzero
    · exact absurd hzero (Nat.succ_ne_zero _)
    · split at hle <;> omega
  | found _ _ => exact hstay _ hlaps rfl rfl
  | word _ _ _ => exact hstay _ hlaps rfl rfl
  | torn _ _ _ _ => exact hstay _ hlaps rfl rfl
  | @got v1 staged j hcall hj hversion =>
    obtain ⟨first, hfirst, hle, hpos, hreceived⟩ := h hlaps
    have hvalue := hgot.2 _ rfl
    have hlt : rx.pos.toNat < sent.length := (List.getElem?_eq_some_iff.1 hvalue).1
    have hnext : (rx.pos + 1).toNat = rx.pos.toNat + 1 := by
      rw [UInt64.toNat_add, show UInt64.toNat 1 = 1 from rfl, Nat.mod_eq_of_lt]
      omega
    refine ⟨first, hfirst, ?_, ?_, ?_⟩
    · dsimp only
      omega
    · dsimp only
      omega
    · -- what it got is the next of what was sent
      have htake : sent.take (rx.pos.toNat + 1) = sent.take rx.pos.toNat ++
          [WordSafe.ofWords (staged.take (WordSafe.words T))] := by
        rw [List.take_add_one, hvalue]
        rfl
      dsimp only
      rw [hnext, htake, List.drop_append_of_le_length (by rw [List.length_take]; omega), hreceived]
      rfl
  | resynced hcall =>
    have hzero := (htracks.lapped hcall).1
    exact absurd (congrArg UInt64.toNat hlaps) hzero

/-- Every step, whoever makes it. -/
theorem ObservedInv.delivers {watch : Watch T} (h : ObservedInv k n i s sent watch)
    (hdelivers : ∀ rx, s.receivers[i]? = some rx → watch.Delivers sent rx) {label : RingLabel T}
    {s' : Channel T} {returned : Option (Option T)}
    (hsmall : (sent ++ label.sent).length + 1 < 2 ^ 63)
    (hstep : s.perform label = some (.ok (s', returned))) :
    ∀ rx, s'.receivers[i]? = some rx →
      (watch.after i s label returned).Delivers (sent ++ label.sent) rx := by
  intro rx hrx
  rcases Channel.receivers_of_perform hstep with ⟨hsame, hafter⟩ | ⟨rfl, hnew⟩ |
    ⟨j, old, new, rfl, hold, hload, hset⟩
  · rw [hafter]
    exact (hdelivers rx (hsame ▸ hrx)).append _
  · rw [hnew] at hrx
    simp only [RingLabel.sent, List.append_nil, Watch.after]
    rcases Nat.lt_trichotomy s.receivers.length i with hlt | rfl | hlt
    · rw [List.getElem?_eq_none (by rw [List.length_append]; exact hlt)] at hrx
      cases hrx
    · -- the one that subscribes has got nothing yet
      rw [List.getElem?_concat_length, Option.some.injEq] at hrx
      subst hrx
      have hnew : watch = .new := by
        have hfits := h.fits
        rwa [List.getElem?_eq_none le_rfl] at hfits
      rw [if_pos rfl, hnew]
      intro _
      refine ⟨s.buffer.producer.toNat, rfl, le_rfl, h.placed.ring.producer.le, ?_⟩
      rw [List.drop_eq_nil_of_le (by rw [List.length_take]; exact Nat.min_le_left _ _)]
      rfl
    · rw [if_neg hlt.ne']
      rw [List.getElem?_append_left hlt] at hrx
      exact hdelivers rx hrx
  · simp only [RingLabel.sent, List.append_nil, Watch.after] at hsmall ⊢
    rw [hset] at hrx
    by_cases hi : j = i
    · subst hi
      rw [List.getElem?_set_self (List.getElem?_eq_some_iff.1 hold).1, Option.some.injEq] at hrx
      subst hrx
      have htracks := h.fits
      rw [hold] at htracks
      simp only [hold, if_true]
      have hmem := List.mem_of_getElem? hold
      exact (hdelivers old hold).step htracks h.placed.ring hsmall (h.placed.places old hmem) hmem
        hload
    · rw [List.getElem?_set_ne hi] at hrx
      simp only [if_neg hi]
      split <;> exact hdelivers rx hrx

/-- In every run, a receiver that was never lapped has got everything that was sent since it
subscribed, up to where it is; and the sender's cursor counts what was sent. -/
theorem received_of_unlapped {capacity : UInt64} {start : Channel T}
    (hstart : channel T capacity = some start) {watch : Watch T}
    (hreach : (observed T i).Reach (start, [], .new) (s, sent, watch))
    (hsmall : sent.length + 1 < 2 ^ 63) :
    s.buffer.producer.toNat = sent.length ∧
      ∀ rx, s.receivers[i]? = some rx → watch.Delivers sent rx := by
  obtain ⟨k, hinit⟩ := RingInv.channel hstart
  have hnone : start.receivers = [] := by
    unfold channel at hstart
    split at hstart
    · rw [← Option.some.inj hstart]
    · cases hstart
  have hall : (∃ n, ObservedInv k n i s sent watch) ∧
      ∀ rx, s.receivers[i]? = some rx → watch.Delivers sent rx := by
    refine hreach.invariant
      (I := fun s => s.2.1.length + 1 < 2 ^ 63 → (∃ n, ObservedInv k n i s.1 s.2.1 s.2.2) ∧
        ∀ rx, s.1.receivers[i]? = some rx → s.2.2.Delivers s.2.1 rx)
      (fun _ => ⟨⟨0, ⟨hinit, by simp [hnone]⟩, by rw [hnone]; rfl⟩, by simp [hnone]⟩) ?_ hsmall
    intro s label s' _ hinv ⟨hsent, returned, hstep, hwatch⟩ hsmall
    rw [hsent] at hsmall ⊢
    have hless := hsmall
    rw [List.length_append] at hless
    obtain ⟨⟨n, hinv⟩, hdelivers⟩ := hinv (by omega)
    rw [hwatch]
    exact ⟨hinv.step hsmall hstep, hinv.delivers hdelivers hsmall hstep⟩
  obtain ⟨⟨n, hobserved⟩, hdelivers⟩ := hall
  exact ⟨hobserved.placed.ring.producer, hdelivers⟩

end Roster
