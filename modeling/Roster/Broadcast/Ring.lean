import Roster.Data.Exec
import Roster.LTS.Basic

/-!
# The broadcast ring

`channel` builds a ring with one sender and any number of receivers.  Every slot carries a version
that encodes a position: `2 * pos + 1` while position `pos` is being written, `2 * pos + 2` once the
write is complete, and `2 * i` in slot `i` before its first write.  A receiver at position `pos`
loads the version, the words and the version again, and keeps what it read only if both versions
are `2 * pos + 2`.

The sender and every receiver are state machines that make one atomic load or store a step
(`Channel.perform`), so the steps of the system `broadcast` interleave them in every order.
Positions and versions are 64-bit words and wrap.
-/

namespace Roster

/-- A value that can be copied word by word. -/
class WordSafe (T : Type) where
  /-- How many words a value has. -/
  words : ℕ
  toWords : T → List UInt64
  ofWords : List UInt64 → T
  length_toWords : ∀ value, (toWords value).length = words
  ofWords_toWords : ∀ value, ofWords (toWords value) = value

/-- The most words a payload has. -/
def maxStagingWords : ℕ := 16

/-- `n.next_power_of_two()`, which wraps to zero above the largest power. -/
def nextPowerOfTwo (n : UInt64) : UInt64 :=
  if n ≤ 1 then 1 else .ofNat (2 ^ ((n - 1).toNat.log2 + 1))

/-- `n.next_multiple_of(m)`. -/
def nextMultipleOf (n m : ℕ) : ℕ := (n + m - 1) / m * m

/-- The version of a slot while position `pos` is being written. -/
def midWrite (pos : UInt64) : UInt64 := 2 * pos + 1

/-- The version of a slot that holds the completed write of position `pos`. -/
def completed (pos : UInt64) : UInt64 := 2 * pos + 2

/-- The memory that the sender and the receivers share. -/
structure RingBuffer where
  mask : UInt64
  versions : List UInt64
  words : List UInt64
  /-- Words from one slot to the next. -/
  stride : ℕ
  producer : UInt64
  deriving DecidableEq, Repr

namespace RingBuffer

/-- The slot of a position. -/
def slot (buffer : RingBuffer) (pos : UInt64) : ℕ := (pos &&& buffer.mask).toNat

/-- Where the words of a position's slot start. -/
def wordBase (buffer : RingBuffer) (pos : UInt64) : ℕ := buffer.slot pos * buffer.stride

def loadVersion (buffer : RingBuffer) (pos : UInt64) : Exec UInt64 :=
  Exec.index buffer.versions (buffer.slot pos)

def loadWord (buffer : RingBuffer) (pos : UInt64) (i : ℕ) : Exec UInt64 :=
  Exec.index buffer.words (buffer.wordBase pos + i)

def storeVersion (buffer : RingBuffer) (pos version : UInt64) : Exec RingBuffer := do
  let versions ← Exec.update buffer.versions (buffer.slot pos) fun _ => .ok version
  return { buffer with versions := versions }

def storeWord (buffer : RingBuffer) (pos : UInt64) (i : ℕ) (word : UInt64) : Exec RingBuffer := do
  let words ← Exec.update buffer.words (buffer.wordBase pos + i) fun _ => .ok word
  return { buffer with words := words }

end RingBuffer

/-- How far the sender is in a call of `send`. -/
inductive Sending (T : Type)
  | idle
  /-- The position is claimed. -/
  | claimed (value : T) (pos : UInt64)
  /-- The slot is open for position `pos`, and the words before the `i`-th are stored. -/
  | writing (staged : List UInt64) (pos : UInt64) (i : ℕ)
  deriving DecidableEq, Repr

/-- How far a receiver is in a call of `try_recv`. -/
inductive Receiving
  | idle
  /-- The version was `v1`, and the words before the `i`-th are read. -/
  | reading (v1 : UInt64) (staged : List UInt64) (i : ℕ)
  | catchingUp
  deriving DecidableEq, Repr

/-- A consumer with its own read cursor. -/
structure SpmcReceiver where
  pos : UInt64
  laps : UInt64
  call : Receiving
  deriving DecidableEq, Repr

section

variable {T : Type} [WordSafe T]

/-- The copy of a value into the staging words. -/
def stage (value : T) : List UInt64 :=
  WordSafe.toWords value ++ List.replicate (maxStagingWords - WordSafe.words T) 0

/-- The next store of `SpmcSender::send`, once its position is claimed. -/
def Sending.step (buffer : RingBuffer) : Sending T → Exec (RingBuffer × Sending T)
  | .idle => .ok (buffer, .idle)
  | .claimed value pos => do
    let buffer ← buffer.storeVersion pos (midWrite pos)
    return (buffer, .writing (stage value) pos 0)
  | .writing staged pos i =>
    if i < WordSafe.words T then do
      let word ← Exec.index staged i
      let buffer ← buffer.storeWord pos i word
      return (buffer, .writing staged pos (i + 1))
    else do
      let buffer ← buffer.storeVersion pos (completed pos)
      return (buffer, .idle)

/-- The next load of `SpmcReceiver::try_recv`, and what the call returns if that ends it. -/
def SpmcReceiver.step (buffer : RingBuffer) (rx : SpmcReceiver) :
    Exec (SpmcReceiver × Option (Option T)) :=
  match rx.call with
  | .idle => do
    let v1 ← buffer.loadVersion rx.pos
    if v1 < completed rx.pos then
      return (rx, some none)
    else if completed rx.pos < v1 then
      return ({ rx with laps := rx.laps + 1, call := .catchingUp }, none)
    else
      return ({ rx with call := .reading v1 (List.replicate maxStagingWords 0) 0 }, none)
  | .reading v1 staged i =>
    if i < WordSafe.words T then do
      let word ← buffer.loadWord rx.pos i
      return ({ rx with call := .reading v1 (staged.set i word) (i + 1) }, none)
    else do
      let v2 ← buffer.loadVersion rx.pos
      if v1 ≠ v2 then
        return ({ rx with call := .idle }, some none)
      else
        return ({ rx with pos := rx.pos + 1, call := .idle },
          some (some (WordSafe.ofWords (staged.take (WordSafe.words T)))))
  | .catchingUp =>
    let half := (buffer.mask + 1) / 2
    let pos := if half ≤ buffer.producer then buffer.producer - half else 0
    .ok ({ rx with pos := pos, call := .idle }, some none)

/-- A ring, its sender and everyone who subscribed to it. -/
structure Channel (T : Type) where
  buffer : RingBuffer
  sending : Sending T
  receivers : List SpmcReceiver
  deriving DecidableEq, Repr

/-- `channel`: the capacity is rounded up to a power of two, and is at least two.  A payload with
more words than a call can stage is refused. -/
def channel (T : Type) [WordSafe T] (capacity : UInt64) : Option (Channel T) :=
  if WordSafe.words T ≤ maxStagingWords then
    let capacity := max (nextPowerOfTwo capacity) 2
    let stride := nextMultipleOf (WordSafe.words T * 8) 64 / 8
    some {
      buffer := {
        mask := capacity - 1
        versions := (List.range capacity.toNat).map fun i => 2 * UInt64.ofNat i
        words := List.replicate (capacity.toNat * stride) 0
        stride := stride
        producer := 0 }
      sending := .idle
      receivers := [] }
  else none

/-- Who makes the next step. -/
inductive RingLabel (T : Type)
  /-- `send` is called, and claims its position. -/
  | send (value : T)
  /-- The sender's next store. -/
  | store
  /-- `SpmcSubscriber::subscribe`. -/
  | subscribe
  /-- The next load of the `i`-th receiver, which calls `try_recv` if it is not in a call. -/
  | receive (i : ℕ)
  deriving DecidableEq, Repr

/-- What a step hands to the ring. -/
def RingLabel.sent : RingLabel T → List T
  | .send value => [value]
  | _ => []

/-- One atomic step, and what it returns to its caller if it ends a call of `try_recv`. -/
def Channel.perform (s : Channel T) : RingLabel T → Option (Exec (Channel T × Option (Option T)))
  | .send value =>
    match s.sending with
    | .idle => some (.ok
        ({ s with
            buffer := { s.buffer with producer := s.buffer.producer + 1 }
            sending := .claimed value s.buffer.producer }, none))
    | _ => none
  | .store =>
    match s.sending with
    | .idle => none
    | sending => some do
        let (buffer, sending) ← sending.step s.buffer
        return ({ s with buffer := buffer, sending := sending }, none)
  | .subscribe => some (.ok
      ({ s with receivers := s.receivers ++ [⟨s.buffer.producer, 0, .idle⟩] }, none))
  | .receive i =>
    match s.receivers[i]? with
    | none => none
    | some rx => some do
        let (rx, returned) ← rx.step s.buffer
        return ({ s with receivers := s.receivers.set i rx }, returned)

/-- The ring together with the values passed to `send` so far, in order. -/
def broadcast (T : Type) [WordSafe T] : LTS (Channel T × List T) (RingLabel T) where
  step s label s' := s'.2 = s.2 ++ label.sent ∧
    ∃ returned, s.1.perform label = some (.ok (s'.1, returned))

end

end Roster
