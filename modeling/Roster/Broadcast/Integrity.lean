import Roster.Event

/-!
# What a receiver gets is what was sent

Every slot of the ring is as it was built, or holds the words of a completed send, or is open for
the send that is under way (`RingInv`).  A version names at most one completed position, and no
version comes back once the slot is opened for another; so a receiver that finds the version of
its position before and after it reads the words has read the words of that send, all of them
(`tryRecv_sent`).
-/

namespace Roster

/-! ### Versions -/

section Versions

variable {pos pos' : UInt64}

theorem toNat_midWrite : (midWrite pos).toNat = (2 * pos.toNat + 1) % 2 ^ 64 := by
  simp [midWrite]

theorem toNat_completed : (completed pos).toNat = (2 * pos.toNat + 2) % 2 ^ 64 := by
  simp [completed]

theorem midWrite_ne_completed : midWrite pos ≠ completed pos' := by
  intro h
  have := congrArg UInt64.toNat h
  rw [toNat_midWrite, toNat_completed] at this
  omega

theorem completed_inj (hpos : pos.toNat < 2 ^ 63) (hpos' : pos'.toNat < 2 ^ 63)
    (h : completed pos = completed pos') : pos = pos' := by
  have := congrArg UInt64.toNat h
  rw [toNat_completed, toNat_completed] at this
  exact UInt64.toNat_inj.1 (by omega)

/-- The version a slot is built with is no completed position's of this slot: the position before
is in another slot, since there are at least two. -/
theorem initial_ne_completed {k i : ℕ} (hk : 1 ≤ k) (hk' : k ≤ 63)
    (hi : pos.toNat % 2 ^ k = i) : 2 * UInt64.ofNat i ≠ completed pos := by
  intro h
  have hle : (2 : ℕ) ^ k ≤ 2 ^ 63 := Nat.pow_le_pow_right (by omega) hk'
  have hlt : i < 2 ^ k := hi ▸ Nat.mod_lt _ (Nat.two_pow_pos k)
  have hval := congrArg UInt64.toNat h
  rw [toNat_completed] at hval
  simp only [UInt64.toNat_mul, UInt64.toNat_ofNat', UInt64.reduceToNat] at hval
  have hparity : pos.toNat % 2 ^ k % 2 = pos.toNat % 2 :=
    Nat.mod_mod_of_dvd _ (dvd_pow_self 2 (by omega))
  have hmod : pos.toNat % 2 ^ k ≤ pos.toNat := Nat.mod_le _ _
  omega

end Versions

/-! ### The buffer -/

namespace RingBuffer

variable {buffer buffer' : RingBuffer} {pos version word : UInt64} {i : ℕ}

theorem loadVersion_eq_ok :
    buffer.loadVersion pos = .ok version ↔ buffer.versions[buffer.slot pos]? = some version :=
  Exec.index_eq_ok

theorem loadWord_eq_ok :
    buffer.loadWord pos i = .ok word ↔ buffer.words[buffer.wordBase pos + i]? = some word :=
  Exec.index_eq_ok

theorem storeVersion_eq_ok : buffer.storeVersion pos version = .ok buffer' ↔
    buffer.slot pos < buffer.versions.length ∧
      buffer' = { buffer with versions := buffer.versions.set (buffer.slot pos) version } := by
  simp only [storeVersion, Exec.bind_eq_ok, Exec.update_eq_ok, Exec.pure_eq_ok,
    List.getElem?_eq_some_iff]
  grind

theorem storeWord_eq_ok : buffer.storeWord pos i word = .ok buffer' ↔
    buffer.wordBase pos + i < buffer.words.length ∧
      buffer' = { buffer with words := buffer.words.set (buffer.wordBase pos + i) word } := by
  simp only [storeWord, Exec.bind_eq_ok, Exec.update_eq_ok, Exec.pure_eq_ok,
    List.getElem?_eq_some_iff]
  grind

/-- After the store of another version, the version of a position is there only if it was. -/
theorem version_of_store {pos' : UInt64} (hne : version ≠ completed pos')
    (h : (buffer.versions.set (buffer.slot pos) version)[buffer.slot pos']? =
      some (completed pos')) :
    buffer.versions[buffer.slot pos']? = some (completed pos') := by
  rw [List.getElem?_set] at h
  split at h
  · split at h
    · exact absurd (Option.some.inj h) hne
    · cases h
  · exact h

end RingBuffer

section

variable {T : Type} [WordSafe T]

/-- The ring has `2 ^ k` slots, at least two, and each has room for a payload. -/
structure Layout (T : Type) [WordSafe T] (k : ℕ) (buffer : RingBuffer) : Prop where
  one_le : 1 ≤ k
  le : k ≤ 63
  mask : buffer.mask.toNat = 2 ^ k - 1
  versions : buffer.versions.length = 2 ^ k
  words : buffer.words.length = 2 ^ k * buffer.stride
  stride : WordSafe.words T ≤ buffer.stride
  staging : WordSafe.words T ≤ maxStagingWords

namespace Layout

variable {k : ℕ} {buffer : RingBuffer} {pos : UInt64}

theorem slot_eq (h : Layout T k buffer) (pos : UInt64) : buffer.slot pos = pos.toNat % 2 ^ k := by
  rw [RingBuffer.slot, UInt64.toNat_and, h.mask, Nat.and_two_pow_sub_one_eq_mod]

theorem slot_lt (h : Layout T k buffer) (pos : UInt64) : buffer.slot pos < 2 ^ k :=
  h.slot_eq pos ▸ Nat.mod_lt _ (Nat.two_pow_pos k)

/-- The words of two slots lie apart. -/
theorem word_ne (h : Layout T k buffer) {i i' j j' : ℕ} (hne : i ≠ i') (hj : j < WordSafe.words T)
    (hj' : j' < WordSafe.words T) : i * buffer.stride + j ≠ i' * buffer.stride + j' := by
  have hstride := h.stride
  rcases Nat.lt_or_gt_of_ne hne with hlt | hlt
  · have := Nat.mul_le_mul_right buffer.stride hlt
    rw [Nat.succ_mul] at this
    omega
  · have := Nat.mul_le_mul_right buffer.stride hlt
    rw [Nat.succ_mul] at this
    omega

end Layout

/-! ### The invariant -/

/-- Slot `i` is as it was built, or holds the last of the first `n` sends that went there. -/
inductive SlotHolds (buffer : RingBuffer) (sent : List T) (n i : ℕ) : Prop
  | fresh : n ≤ i → buffer.versions[i]? = some (2 * UInt64.ofNat i) → SlotHolds buffer sent n i
  | holds (pos : UInt64) (value : T) : pos.toNat < n → n ≤ pos.toNat + buffer.versions.length →
      buffer.slot pos = i →
      buffer.versions[i]? = some (completed pos) → sent[pos.toNat]? = some value →
      (∀ j < WordSafe.words T,
        buffer.words[i * buffer.stride + j]? = (WordSafe.toWords value)[j]?) →
      SlotHolds buffer sent n i

/-- The sender has slot `i` open. -/
def Sending.Opens (buffer : RingBuffer) (i : ℕ) : Sending T → Prop
  | .writing _ pos _ => buffer.slot pos = i
  | _ => False

/-- The first `n` sends are complete, and this is how far the next one is. -/
def SenderAt (buffer : RingBuffer) (sent : List T) (n : ℕ) : Sending T → Prop
  | .idle => sent.length = n
  | .claimed value pos => sent.length = n + 1 ∧ pos.toNat = n ∧ sent[n]? = some value
  | .writing staged pos i => sent.length = n + 1 ∧ pos.toNat = n ∧ i ≤ WordSafe.words T ∧
      buffer.versions[buffer.slot pos]? = some (midWrite pos) ∧
      ∃ value, sent[n]? = some value ∧ staged = stage value ∧
        ∀ j < i, buffer.words[buffer.wordBase pos + j]? = (WordSafe.toWords value)[j]?

/-- A receiver that is reading a position: while the version is still there, what it has read is
what was sent. -/
def ReceiverAt (buffer : RingBuffer) (sent : List T) (n : ℕ) (pos : UInt64) : Receiving → Prop
  | .reading v1 staged i => v1 = completed pos ∧ pos.toNat < n ∧ i ≤ WordSafe.words T ∧
      staged.length = maxStagingWords ∧
      (buffer.versions[buffer.slot pos]? = some (completed pos) →
        ∃ value, sent[pos.toNat]? = some value ∧
          ∀ j < i, staged[j]? = (WordSafe.toWords value)[j]?)
  | _ => True

/-- The ring after `sent`, with its first `n` sends complete. -/
structure RingInv (k n : ℕ) (s : Channel T) (sent : List T) : Prop where
  layout : Layout T k s.buffer
  producer : s.buffer.producer.toNat = sent.length
  small : sent.length ≤ 2 ^ 63
  sender : SenderAt s.buffer sent n s.sending
  slots : ∀ i < 2 ^ k, s.sending.Opens s.buffer i ∨ SlotHolds s.buffer sent n i
  receivers : ∀ rx ∈ s.receivers, ReceiverAt s.buffer sent n rx.pos rx.call

theorem SenderAt.le_length {buffer : RingBuffer} {sent : List T} {n : ℕ} {sending : Sending T}
    (h : SenderAt buffer sent n sending) : n ≤ sent.length := by
  cases sending with
  | idle => exact h.ge
  | claimed _ _ => exact h.1 ▸ Nat.le_succ n
  | writing _ _ _ => exact h.1 ▸ Nat.le_succ n

/-- Only the slot of a send that is writing is open. -/
theorem RingInv.opens {k n i : ℕ} {s : Channel T} {sent : List T} (h : RingInv k n s sent)
    (hopen : s.sending.Opens s.buffer i) : ∃ staged last word, s.buffer.slot last = i ∧
      SenderAt s.buffer sent n (.writing staged last word) := by
  have hsender := h.sender
  cases hsending : s.sending with
  | idle => rw [hsending] at hopen; cases hopen
  | claimed _ _ => rw [hsending] at hopen; cases hopen
  | writing staged last word =>
    rw [hsending] at hopen hsender
    exact ⟨staged, last, word, hopen, hsender⟩

/-- A slot with the version of a position holds what was sent there. -/
theorem RingInv.read {k n : ℕ} {s : Channel T} {sent : List T} (h : RingInv k n s sent)
    {pos : UInt64} (hpos : pos.toNat < 2 ^ 63)
    (hversion : s.buffer.versions[s.buffer.slot pos]? = some (completed pos)) :
    pos.toNat < n ∧ ∃ value, sent[pos.toNat]? = some value ∧ ∀ j < WordSafe.words T,
      s.buffer.words[s.buffer.wordBase pos + j]? = (WordSafe.toWords value)[j]? := by
  rcases h.slots _ (h.layout.slot_lt pos) with hopen | ⟨-, hfresh⟩ |
      ⟨pos', value, hlt, -, -, hheld, hvalue, hwords⟩
  · obtain ⟨-, other, -, hslot, -, -, -, hmid, -⟩ := h.opens hopen
    rw [hslot, hversion] at hmid
    exact absurd (Option.some.inj hmid).symm midWrite_ne_completed
  · rw [hversion] at hfresh
    exact absurd (Option.some.inj hfresh).symm
      (initial_ne_completed h.layout.one_le h.layout.le (h.layout.slot_eq pos).symm)
  · have hle := h.sender.le_length
    have hsmall := h.small
    rw [hversion] at hheld
    obtain rfl := completed_inj hpos (by omega) (Option.some.inj hheld)
    exact ⟨hlt, value, hvalue, hwords⟩

/-! ### What stays through a step -/

theorem SlotHolds.mono {buffer buffer' : RingBuffer} {sent sent' : List T} {n i : ℕ}
    (h : SlotHolds buffer sent n i)
    (hsent : ∀ (p : ℕ) value, sent[p]? = some value → sent'[p]? = some value)
    (hmask : buffer'.mask = buffer.mask)
    (hlen : buffer'.versions.length = buffer.versions.length)
    (hversion : buffer'.versions[i]? = buffer.versions[i]?)
    (hwords : ∀ j < WordSafe.words T,
      buffer'.words[i * buffer'.stride + j]? = buffer.words[i * buffer.stride + j]?) :
    SlotHolds buffer' sent' n i := by
  cases h with
  | fresh hle h => exact .fresh hle (hversion.trans h)
  | holds pos value hlt hlast hslot hver hvalue hread =>
    have hslot' : buffer'.slot pos = i := by rw [← hslot, RingBuffer.slot, hmask, RingBuffer.slot]
    exact .holds pos value hlt (hlen ▸ hlast) hslot' (hversion.trans hver) (hsent _ _ hvalue)
      fun j hj => (hwords j hj).trans (hread j hj)

/-- One more send is complete, in another slot. -/
theorem SlotHolds.succ {k : ℕ} {buffer : RingBuffer} {sent : List T} {n i : ℕ}
    (hlayout : Layout T k buffer) (h : SlotHolds buffer sent n i) (hi : i < 2 ^ k)
    (hne : n % 2 ^ k ≠ i) : SlotHolds buffer sent (n + 1) i := by
  cases h with
  | fresh hle h =>
    refine .fresh (Nat.lt_of_le_of_ne hle fun heq => hne ?_) h
    rw [heq, Nat.mod_eq_of_lt hi]
  | holds pos value hlt hlast hslot hver hvalue hread =>
    refine .holds pos value (by omega) ?_ hslot hver hvalue hread
    refine Nat.lt_of_le_of_ne hlast fun heq => hne ?_
    rw [heq, hlayout.versions, Nat.add_mod_right, ← hlayout.slot_eq, hslot]

theorem ReceiverAt.mono {buffer buffer' : RingBuffer} {sent sent' : List T} {n n' : ℕ}
    {pos : UInt64} {call : Receiving} (h : ReceiverAt buffer sent n pos call)
    (hsent : ∀ (p : ℕ) value, sent[p]? = some value → sent'[p]? = some value) (hn : n ≤ n')
    (hversion : pos.toNat < n → buffer'.versions[buffer'.slot pos]? = some (completed pos) →
      buffer.versions[buffer.slot pos]? = some (completed pos)) :
    ReceiverAt buffer' sent' n' pos call := by
  cases call with
  | idle => trivial
  | catchingUp => trivial
  | reading v1 staged i =>
    obtain ⟨hv1, hlt, hi, hlen, hread⟩ := h
    refine ⟨hv1, by omega, hi, hlen, fun hver => ?_⟩
    obtain ⟨value, hvalue, hwords⟩ := hread (hversion hlt hver)
    exact ⟨value, hsent _ _ hvalue, hwords⟩

/-! ### The sender's steps -/

variable {k n : ℕ} {s : Channel T} {sent : List T}

theorem RingInv.send (h : RingInv k n s sent) (hidle : s.sending = .idle)
    (hsmall : 2 * s.buffer.producer.toNat < UInt64.size) (value : T) :
    RingInv k n
      { s with
        buffer := { s.buffer with producer := s.buffer.producer + 1 }
        sending := .claimed value s.buffer.producer }
      (sent ++ [value]) := by
  have hn : sent.length = n := by
    have hsender := h.sender
    rwa [hidle] at hsender
  have hgrow : ∀ (p : ℕ) (other : T), sent[p]? = some other → (sent ++ [value])[p]? = some other :=
    fun p other hp => List.getElem?_append_left (List.getElem?_eq_some_iff.1 hp).1 ▸ hp
  have hproducer := h.producer
  simp only [UInt64.size] at hsmall
  refine ⟨⟨h.layout.one_le, h.layout.le, h.layout.mask, h.layout.versions, h.layout.words,
    h.layout.stride, h.layout.staging⟩, ?_, ?_, ⟨?_, ?_, ?_⟩, fun i hi => ?_, fun rx hrx => ?_⟩
  · rw [UInt64.toNat_add, List.length_append, List.length_singleton, hproducer]
    exact Nat.mod_eq_of_lt (by simp; omega)
  · simp only [List.length_append, List.length_singleton]; omega
  · rw [List.length_append, List.length_singleton, hn]
  · rw [hproducer, hn]
  · rw [← hn, List.getElem?_concat_length]
  · rcases h.slots i hi with hopen | hholds
    · rw [hidle] at hopen; cases hopen
    · exact .inr (hholds.mono hgrow rfl rfl rfl fun _ _ => rfl)
  · exact (h.receivers rx hrx).mono hgrow le_rfl fun _ h => h

/-- Opening the slot: only its version changes, and it names no completed position. -/
theorem RingInv.open {value : T} {pos : UInt64} {buffer : RingBuffer} (h : RingInv k n s sent)
    (hclaimed : s.sending = .claimed value pos)
    (hstore : s.buffer.storeVersion pos (midWrite pos) = .ok buffer) :
    RingInv k n { s with buffer := buffer, sending := .writing (stage value) pos 0 } sent := by
  obtain ⟨hlt, rfl⟩ := RingBuffer.storeVersion_eq_ok.1 hstore
  obtain ⟨hlength, hpos, hvalue⟩ : SenderAt s.buffer sent n (.claimed value pos) :=
    hclaimed ▸ h.sender
  refine ⟨⟨h.layout.one_le, h.layout.le, h.layout.mask, ?_, h.layout.words, h.layout.stride,
    h.layout.staging⟩, h.producer, h.small, ⟨hlength, hpos, Nat.zero_le _, ?_, value, hvalue, rfl,
    fun _ hj => by cases hj⟩, fun i hi => ?_, fun rx hrx => ?_⟩
  · rw [List.length_set, h.layout.versions]
  · exact List.getElem?_set_self hlt
  · by_cases hslot : s.buffer.slot pos = i
    · exact .inl hslot
    · rcases h.slots i hi with hopen | hholds
      · rw [hclaimed] at hopen; cases hopen
      · exact .inr (hholds.mono (fun _ _ h => h) rfl (List.length_set ..)
          (List.getElem?_set_ne hslot) fun _ _ => rfl)
  · exact (h.receivers rx hrx).mono (fun _ _ h => h) le_rfl fun _ hversion =>
      RingBuffer.version_of_store midWrite_ne_completed hversion

/-- Storing a word: the slot that changes is open. -/
theorem RingInv.storeWord {staged : List UInt64} {pos word : UInt64} {i : ℕ} {buffer : RingBuffer}
    (h : RingInv k n s sent) (hwriting : s.sending = .writing staged pos i)
    (hi : i < WordSafe.words T) (hword : staged[i]? = some word)
    (hstore : s.buffer.storeWord pos i word = .ok buffer) :
    RingInv k n { s with buffer := buffer, sending := .writing staged pos (i + 1) } sent := by
  obtain ⟨hlt, rfl⟩ := RingBuffer.storeWord_eq_ok.1 hstore
  obtain ⟨hlength, hpos, -, hversion, value, hvalue, hstaged, hwords⟩ :
    SenderAt s.buffer sent n (.writing staged pos i) := hwriting ▸ h.sender
  refine ⟨⟨h.layout.one_le, h.layout.le, h.layout.mask, h.layout.versions, ?_, h.layout.stride,
    h.layout.staging⟩, h.producer, h.small, ⟨hlength, hpos, hi, hversion, value, hvalue, hstaged,
    fun j hj => ?_⟩, fun slot hslot => ?_, fun rx hrx => ?_⟩
  · rw [List.length_set, h.layout.words]
  · rcases Nat.lt_succ_iff_lt_or_eq.1 hj with hj | rfl
    · have hne : s.buffer.wordBase pos + i ≠ s.buffer.wordBase pos + j := by omega
      exact (List.getElem?_set_ne hne).trans (hwords j hj)
    · refine (List.getElem?_set_self hlt).trans ?_
      rw [← hword, hstaged, stage, List.getElem?_append_left]
      rwa [WordSafe.length_toWords]
  · by_cases hopen : s.buffer.slot pos = slot
    · exact .inl hopen
    · rcases h.slots slot hslot with hother | hholds
      · rw [hwriting] at hother
        exact absurd hother hopen
      · exact .inr (hholds.mono (fun _ _ h => h) rfl rfl rfl fun j hj =>
          List.getElem?_set_ne (h.layout.word_ne hopen hi hj))
  · exact (h.receivers rx hrx).mono (fun _ _ h => h) le_rfl fun _ h => h

/-- Closing the slot: it holds what was sent, and the send is complete. -/
theorem RingInv.close {staged : List UInt64} {pos : UInt64} {i : ℕ} {buffer : RingBuffer}
    (h : RingInv k n s sent) (hwriting : s.sending = .writing staged pos i)
    (hi : ¬ i < WordSafe.words T)
    (hstore : s.buffer.storeVersion pos (completed pos) = .ok buffer) :
    RingInv k (n + 1) { s with buffer := buffer, sending := .idle } sent := by
  obtain ⟨hlt, rfl⟩ := RingBuffer.storeVersion_eq_ok.1 hstore
  obtain ⟨hlength, hpos, hle, -, value, hvalue, -, hwords⟩ :
    SenderAt s.buffer sent n (.writing staged pos i) := hwriting ▸ h.sender
  have hsmall := h.small
  refine ⟨⟨h.layout.one_le, h.layout.le, h.layout.mask, ?_, h.layout.words, h.layout.stride,
    h.layout.staging⟩, h.producer, h.small, hlength, fun slot hslot => .inr ?_, fun rx hrx => ?_⟩
  · rw [List.length_set, h.layout.versions]
  · by_cases hopen : s.buffer.slot pos = slot
    · subst hopen
      refine .holds pos value (by omega) ?_ rfl (List.getElem?_set_self hlt) (hpos ▸ hvalue)
        fun j hj => hwords j (by omega)
      rw [List.length_set]
      omega
    · rcases h.slots slot hslot with hother | hholds
      · rw [hwriting] at hother
        exact absurd hother hopen
      · have hne : n % 2 ^ k ≠ slot := by rwa [← hpos, ← h.layout.slot_eq]
        exact (hholds.succ h.layout hslot hne).mono (fun _ _ h => h) rfl (List.length_set ..)
          (List.getElem?_set_ne hopen) fun _ _ => rfl
  · refine (h.receivers rx hrx).mono (fun _ _ h => h) (Nat.le_succ n) fun hold hversion =>
      RingBuffer.version_of_store (fun heq => ?_) hversion
    rw [completed_inj (by omega) (by omega) heq] at hpos
    omega

theorem RingInv.store {buffer : RingBuffer} {sending : Sending T} (h : RingInv k n s sent)
    (hbusy : s.sending ≠ .idle) (hstep : s.sending.step s.buffer = .ok (buffer, sending)) :
    ∃ n', RingInv k n' { s with buffer := buffer, sending := sending } sent := by
  cases hsending : s.sending with
  | idle => exact absurd hsending hbusy
  | claimed value pos =>
    rw [hsending, Sending.step] at hstep
    obtain ⟨buffer', hstore, hrest⟩ := Exec.bind_eq_ok.1 hstep
    obtain ⟨rfl, rfl⟩ := Prod.mk.inj (Exec.pure_eq_ok.1 hrest)
    exact ⟨n, h.open hsending hstore⟩
  | writing staged pos i =>
    rw [hsending, Sending.step] at hstep
    split at hstep
    · next hi =>
      obtain ⟨word, hword, hrest⟩ := Exec.bind_eq_ok.1 hstep
      obtain ⟨buffer', hstore, hrest⟩ := Exec.bind_eq_ok.1 hrest
      obtain ⟨rfl, rfl⟩ := Prod.mk.inj (Exec.pure_eq_ok.1 hrest)
      exact ⟨n, h.storeWord hsending hi (Exec.index_eq_ok.1 hword) hstore⟩
    · next hi =>
      obtain ⟨buffer', hstore, hrest⟩ := Exec.bind_eq_ok.1 hstep
      obtain ⟨rfl, rfl⟩ := Prod.mk.inj (Exec.pure_eq_ok.1 hrest)
      exact ⟨n + 1, h.close hsending hi hstore⟩

/-! ### The receivers' steps -/

/-- What the next load of a receiver did. -/
inductive ReceiverStep (buffer : RingBuffer) :
    SpmcReceiver → SpmcReceiver → Option (Option T) → Prop
  | empty {rx : SpmcReceiver} {v1 : UInt64} : rx.call = .idle →
      buffer.versions[buffer.slot rx.pos]? = some v1 → v1 < completed rx.pos →
      ReceiverStep buffer rx rx (some none)
  | lapped {rx : SpmcReceiver} {v1 : UInt64} : rx.call = .idle →
      buffer.versions[buffer.slot rx.pos]? = some v1 → completed rx.pos < v1 →
      ReceiverStep buffer rx { rx with laps := rx.laps + 1, call := .catchingUp } none
  | found {rx : SpmcReceiver} : rx.call = .idle →
      buffer.versions[buffer.slot rx.pos]? = some (completed rx.pos) →
      ReceiverStep buffer rx
        { rx with call := .reading (completed rx.pos) (List.replicate maxStagingWords 0) 0 } none
  | word {rx : SpmcReceiver} {v1 word : UInt64} {staged : List UInt64} {i : ℕ} :
      rx.call = .reading v1 staged i → i < WordSafe.words T →
      buffer.words[buffer.wordBase rx.pos + i]? = some word →
      ReceiverStep buffer rx { rx with call := .reading v1 (staged.set i word) (i + 1) } none
  | torn {rx : SpmcReceiver} {v1 v2 : UInt64} {staged : List UInt64} {i : ℕ} :
      rx.call = .reading v1 staged i → ¬ i < WordSafe.words T →
      buffer.versions[buffer.slot rx.pos]? = some v2 → v1 ≠ v2 →
      ReceiverStep buffer rx { rx with call := .idle } (some none)
  | got {rx : SpmcReceiver} {v1 : UInt64} {staged : List UInt64} {i : ℕ} :
      rx.call = .reading v1 staged i → ¬ i < WordSafe.words T →
      buffer.versions[buffer.slot rx.pos]? = some v1 →
      ReceiverStep buffer rx { rx with pos := rx.pos + 1, call := .idle }
        (some (some (WordSafe.ofWords (staged.take (WordSafe.words T)))))
  | resynced {rx : SpmcReceiver} : rx.call = .catchingUp →
      ReceiverStep buffer rx { rx with
        pos := if (buffer.mask + 1) / 2 ≤ buffer.producer then
          buffer.producer - (buffer.mask + 1) / 2 else 0
        call := .idle } (some none)

theorem receiverStep_of_step {buffer : RingBuffer} {rx rx' : SpmcReceiver}
    {returned : Option (Option T)} (h : rx.step buffer = .ok (rx', returned)) :
    ReceiverStep buffer rx rx' returned := by
  unfold SpmcReceiver.step at h
  cases hcall : rx.call with
  | idle =>
    simp only [hcall] at h
    obtain ⟨v1, hv1, h⟩ := Exec.bind_eq_ok.1 h
    have hversion := RingBuffer.loadVersion_eq_ok.1 hv1
    split at h
    · next hlt =>
      obtain ⟨rfl, rfl⟩ := Prod.mk.inj (Exec.pure_eq_ok.1 h)
      exact .empty hcall hversion hlt
    · split at h
      · next hlt =>
        obtain ⟨rfl, rfl⟩ := Prod.mk.inj (Exec.pure_eq_ok.1 h)
        exact .lapped hcall hversion hlt
      · next hge hle =>
        obtain ⟨rfl, rfl⟩ := Prod.mk.inj (Exec.pure_eq_ok.1 h)
        -- neither below nor above the version it waits for
        obtain rfl : v1 = completed rx.pos :=
          UInt64.le_antisymm (UInt64.not_lt.1 hle) (UInt64.not_lt.1 hge)
        exact .found hcall hversion
  | catchingUp =>
    simp only [hcall] at h
    obtain ⟨rfl, rfl⟩ := Prod.mk.inj (Exec.pure_eq_ok.1 h)
    exact .resynced hcall
  | reading v1 staged i =>
    simp only [hcall] at h
    split at h
    · next hi =>
      obtain ⟨word, hword, h⟩ := Exec.bind_eq_ok.1 h
      obtain ⟨rfl, rfl⟩ := Prod.mk.inj (Exec.pure_eq_ok.1 h)
      exact .word hcall hi (RingBuffer.loadWord_eq_ok.1 hword)
    · next hi =>
      obtain ⟨v2, hv2, h⟩ := Exec.bind_eq_ok.1 h
      have hversion := RingBuffer.loadVersion_eq_ok.1 hv2
      split at h
      · next hne =>
        obtain ⟨rfl, rfl⟩ := Prod.mk.inj (Exec.pure_eq_ok.1 h)
        exact .torn hcall hi hversion hne
      · next hsame =>
        obtain ⟨rfl, rfl⟩ := Prod.mk.inj (Exec.pure_eq_ok.1 h)
        exact .got hcall hi (not_not.1 hsame ▸ hversion)

/-- What the next load of a receiver leads to. -/
theorem RingInv.receive (h : RingInv k n s sent) {rx rx' : SpmcReceiver} (hrx : rx ∈ s.receivers)
    (hsmall : 2 * rx.pos.toNat < UInt64.size) {returned : Option (Option T)}
    (hstep : ReceiverStep s.buffer rx rx' returned) :
    ReceiverAt s.buffer sent n rx'.pos rx'.call ∧
      ∀ value, returned = some (some value) → sent[rx.pos.toNat]? = some value := by
  have hpos : rx.pos.toNat < 2 ^ 63 := by
    simp only [UInt64.size] at hsmall
    omega
  have hat := h.receivers rx hrx
  cases hstep with
  | empty => exact ⟨hat, by simp⟩
  | lapped => exact ⟨trivial, by simp⟩
  | found _ hversion =>
    obtain ⟨hlt, value, hvalue, -⟩ := h.read hpos hversion
    exact ⟨⟨rfl, hlt, Nat.zero_le _, List.length_replicate, fun _ =>
      ⟨value, hvalue, fun _ hj => by cases hj⟩⟩, by simp⟩
  | @word v1 word staged i hcall hi hword =>
    rw [hcall] at hat
    obtain ⟨hv1, hlt, -, hlen, hread⟩ := hat
    refine ⟨⟨hv1, hlt, hi, by rw [List.length_set, hlen], fun hversion => ?_⟩, by simp⟩
    obtain ⟨value, hvalue, hwords⟩ := hread hversion
    -- the version has not moved since, so the word is of the value that was sent there
    obtain ⟨-, value', hvalue', hslot⟩ := h.read hpos hversion
    obtain rfl := Option.some.inj (hvalue.symm.trans hvalue')
    refine ⟨value, hvalue, fun j hj => ?_⟩
    rcases Nat.lt_succ_iff_lt_or_eq.1 hj with hj | rfl
    · rw [List.getElem?_set_ne (by omega), hwords j hj]
    · have hroom : j < staged.length := hlen ▸ hi.trans_le h.layout.staging
      rw [List.getElem?_set_self hroom, ← hslot j hi, hword]
  | torn => exact ⟨trivial, by simp⟩
  | @got v1 staged i hcall hi hversion =>
    rw [hcall] at hat
    obtain ⟨rfl, -, -, -, hread⟩ := hat
    refine ⟨trivial, fun value hvalue => ?_⟩
    obtain ⟨value', hvalue', hwords⟩ := hread hversion
    rw [hvalue', ← Option.some.inj (Option.some.inj hvalue)]
    -- the second look at the version makes the staged words those of one value
    have hstaged : staged.take (WordSafe.words T) = WordSafe.toWords value' := by
      refine List.ext_getElem? fun j => ?_
      rw [List.getElem?_take]
      split
      · next hj => exact hwords j (by omega)
      · next hj => rw [List.getElem?_eq_none (by rw [WordSafe.length_toWords]; omega)]
    rw [hstaged, WordSafe.ofWords_toWords]
  | resynced => exact ⟨trivial, by simp⟩

/-! ### Runs -/

/-- The capacity is a power of two, and at least two. -/
theorem capacity_eq (capacity : UInt64) :
    ∃ k, 1 ≤ k ∧ k ≤ 63 ∧ (max (nextPowerOfTwo capacity) 2).toNat = 2 ^ k := by
  unfold nextPowerOfTwo
  split
  · exact ⟨1, le_rfl, by omega, by decide⟩
  · generalize (capacity - 1).toNat.log2 = m
    rw [UInt64.toNat_max, UInt64.toNat_ofNat', show UInt64.toNat 2 = 2 from rfl]
    by_cases hm : m + 1 ≤ 63
    · have hle : (2 : ℕ) ^ (m + 1) ≤ 2 ^ 63 := Nat.pow_le_pow_right (by omega) hm
      have hge : 2 ≤ 2 ^ (m + 1) := Nat.le_self_pow (by omega) 2
      refine ⟨m + 1, by omega, hm, ?_⟩
      rw [Nat.mod_eq_of_lt (by omega), max_eq_left hge]
    · -- what is left of a power that does not fit is zero
      have hdvd : 2 ^ 64 ∣ 2 ^ (m + 1) := pow_dvd_pow 2 (by omega)
      exact ⟨1, le_rfl, by omega, by rw [Nat.mod_eq_zero_of_dvd hdvd]; rfl⟩

theorem le_nextMultipleOf {n m : ℕ} (hm : 0 < m) : n ≤ nextMultipleOf n m := by
  have hdiv := Nat.div_add_mod (n + m - 1) m
  have hmod := Nat.mod_lt (n + m - 1) hm
  rw [nextMultipleOf, Nat.mul_comm]
  omega

/-- A ring as `channel` builds it. -/
theorem RingInv.channel {capacity : UInt64} (h : channel T capacity = some s) :
    ∃ k, RingInv k 0 s [] := by
  unfold Roster.channel at h
  split at h
  · next hstaging =>
    obtain rfl := Option.some.inj h
    obtain ⟨k, hone, hle, hcapacity⟩ := capacity_eq capacity
    have hpos := Nat.two_pow_pos k
    refine ⟨k, ⟨hone, hle, ?_, ?_, ?_, ?_, hstaging⟩, rfl, Nat.zero_le _, rfl, fun i hi => .inr ?_,
      fun rx hrx => by cases hrx⟩
    · rw [UInt64.toNat_sub_of_le, hcapacity]
      · rfl
      · rw [UInt64.le_iff_toNat_le, hcapacity]
        exact hpos
    · rw [List.length_map, List.length_range, hcapacity]
    · rw [List.length_replicate, hcapacity]
    · exact (Nat.le_div_iff_mul_le (by omega)).2 (le_nextMultipleOf (by omega))
    · refine .fresh (Nat.zero_le _) ?_
      rw [List.getElem?_map, List.getElem?_range (hcapacity ▸ hi), Option.map_some]
  · cases h

/-- Positions so small that `2 * pos` does not overflow. -/
def SmallPositions (s : Channel T) : RingLabel T → Prop
  | .send _ => 2 * s.buffer.producer.toNat < UInt64.size
  | .receive i => ∀ rx ∈ s.receivers[i]?, 2 * rx.pos.toNat < UInt64.size
  | _ => True

instance (s : Channel T) : DecidablePred (SmallPositions s)
  | .send _ => inferInstanceAs (Decidable (_ < UInt64.size))
  | .store => isTrue trivial
  | .subscribe => isTrue trivial
  | .receive i => inferInstanceAs (Decidable (∀ rx ∈ s.receivers[i]?, _))

theorem RingInv.perform (h : RingInv k n s sent) {label : RingLabel T}
    (hsmall : SmallPositions s label) {s' : Channel T} {returned : Option (Option T)}
    (hstep : s.perform label = some (.ok (s', returned))) :
    ∃ n', RingInv k n' s' (sent ++ label.sent) := by
  cases label with
  | send value =>
    simp only [Channel.perform] at hstep
    split at hstep
    · next hidle =>
      obtain ⟨rfl, -⟩ := Prod.mk.inj (Except.ok.inj (Option.some.inj hstep))
      exact ⟨n, h.send hidle hsmall value⟩
    · cases hstep
  | store =>
    simp only [RingLabel.sent, List.append_nil]
    simp only [Channel.perform] at hstep
    split at hstep
    · cases hstep
    · next hbusy =>
      obtain ⟨⟨buffer, sending⟩, hstore, hrest⟩ := Exec.bind_eq_ok.1 (Option.some.inj hstep)
      obtain ⟨rfl, -⟩ := Prod.mk.inj (Exec.pure_eq_ok.1 hrest)
      exact h.store hbusy hstore
  | subscribe =>
    simp only [RingLabel.sent, List.append_nil]
    obtain ⟨rfl, -⟩ := Prod.mk.inj (Except.ok.inj (Option.some.inj hstep))
    refine ⟨n, h.layout, h.producer, h.small, h.sender, h.slots, fun rx hrx => ?_⟩
    rcases List.mem_append.1 hrx with hrx | hrx
    · exact h.receivers rx hrx
    · rw [List.mem_singleton.1 hrx]; trivial
  | receive i =>
    simp only [RingLabel.sent, List.append_nil]
    simp only [Channel.perform] at hstep
    split at hstep
    · cases hstep
    · next rx hrx =>
      obtain ⟨⟨rx', _⟩, hload, hrest⟩ := Exec.bind_eq_ok.1 (Option.some.inj hstep)
      obtain ⟨rfl, -⟩ := Prod.mk.inj (Exec.pure_eq_ok.1 hrest)
      refine ⟨n, h.layout, h.producer, h.small, h.sender, h.slots, fun other hother => ?_⟩
      rcases List.mem_or_eq_of_mem_set hother with hother | rfl
      · exact h.receivers other hother
      · exact (h.receive (List.mem_of_getElem? hrx) (hsmall rx hrx)
          (receiverStep_of_step hload)).1

/-- **Ring integrity**: a call of `try_recv` at position `p` returns what was passed to the `p`-th
call of `send`, whatever the capacity and however the steps are interleaved. -/
theorem tryRecv_sent {capacity : UInt64} {start : Channel T}
    (hstart : channel T capacity = some start)
    (hreach : ((broadcast T).guard fun s => SmallPositions s.1).Reach (start, []) (s, sent))
    {i : ℕ} {rx : SpmcReceiver} (hrx : s.receivers[i]? = some rx)
    (hsmall : SmallPositions s (.receive i)) {s' : Channel T} {value : T}
    (hrecv : s.perform (.receive i) = some (.ok (s', some (some value)))) :
    sent[rx.pos.toNat]? = some value := by
  obtain ⟨k, hinit⟩ := RingInv.channel hstart
  obtain ⟨n, hinv⟩ : ∃ n, RingInv k n s sent :=
    hreach.invariant (I := fun s => ∃ n, RingInv k n s.1 s.2) ⟨0, hinit⟩
      fun s label s' _ ⟨_, hinv⟩ ⟨hguard, hsent, _, hstep⟩ => hsent ▸ hinv.perform hguard hstep
  simp only [Channel.perform, hrx, Option.some.injEq] at hrecv
  obtain ⟨⟨rx', returned⟩, hload, hrest⟩ := Exec.bind_eq_ok.1 hrecv
  obtain ⟨-, rfl⟩ := Prod.mk.inj (Exec.pure_eq_ok.1 hrest)
  exact (hinv.receive (List.mem_of_getElem? hrx) (hsmall rx hrx)
    (receiverStep_of_step hload)).2 value rfl

/-- The ring after these steps, if all can be made at small positions. -/
def Channel.run (s : Channel T) (sent : List T) :
    List (RingLabel T) → Option (Channel T × List T)
  | [] => some (s, sent)
  | label :: labels =>
    match s.perform label with
    | some (.ok (s', _)) =>
      if SmallPositions s label then s'.run (sent ++ label.sent) labels else none
    | _ => none

theorem Channel.reach_of_run {labels : List (RingLabel T)} {s' : Channel T} {sent' : List T}
    (h : s.run sent labels = some (s', sent')) :
    ((broadcast T).guard fun s => SmallPositions s.1).Reach (s, sent) (s', sent') := by
  induction labels generalizing s sent with
  | nil => exact Option.some.inj h ▸ .refl
  | cons label labels ih =>
    rw [Channel.run] at h
    split at h
    · next mid returned hstep =>
      split at h
      · next hsmall =>
        have hfirst : ((broadcast T).guard fun s => SmallPositions s.1).step (s, sent) label
            (mid, sent ++ label.sent) := ⟨hsmall, rfl, returned, hstep⟩
        exact (LTS.Reach.refl.tail hfirst).trans (ih h)
      · cases h
    · cases h

end

/-! ### One event -/

/-- A ring of two slots. -/
def twoSlots : Channel JobEvent where
  buffer := ⟨1, [0, 2], List.replicate 16 0, 8, 0⟩
  sending := .idle
  receivers := []

/-- The event. -/
def firstEvent : JobEvent := .new 0 0 .queued 7

/-- A receiver subscribes and finds nothing; the event is sent; the receiver reads its words. -/
def sentAndRead : List (RingLabel JobEvent) :=
  .subscribe :: .receive 0 :: .send firstEvent ::
    List.replicate 6 .store ++ List.replicate 5 (.receive 0)

/-- The ring before the receiver loads the version again. -/
def eventRead : Channel JobEvent where
  buffer := ⟨1, [2, 2], [0, 0, 1, 7] ++ List.replicate 12 0, 8, 1⟩
  sending := .idle
  receivers := [⟨0, 0, .reading 2 ([0, 0, 1, 7] ++ List.replicate 12 0) 4⟩]

/-- The receiver gets the event. -/
theorem firstEvent_received :
    (∃ s', eventRead.perform (.receive 0) = some (.ok (s', some (some firstEvent)))) ∧
      [firstEvent][(0 : UInt64).toNat]? = some firstEvent := by
  have hstart : channel JobEvent 1 = some twoSlots := by decide +kernel
  have hrun : twoSlots.run [] sentAndRead = some (eventRead, [firstEvent]) := by decide +kernel
  have hsmall : SmallPositions eventRead (.receive 0) := by decide
  exact ⟨⟨_, rfl⟩, tryRecv_sent hstart (Channel.reach_of_run hrun) rfl hsmall rfl⟩

end Roster
