import Roster.Workflow.Model

/-!
# GPU readings

What a node reports about a card, as far as placement and qualification read it.  A card is kept
out of placement for as long as `GpuHealth.blocked` gives a reason; all but a quarantine count only
while nothing is booked on the card.
-/

namespace Roster

/-- One GPU's readings; a reading the GPU does not report stays `none`. -/
structure GpuHealth where
  index : UInt32
  /-- Why clocks are held down; empty when they are not. -/
  throttled : List String := []
  /-- VRAM the compute processes on the card hold together. -/
  processVramMb : Option UInt64 := none
  /-- Why the card is out of service. -/
  quarantined : Option String := none
  /-- Last qualification since the node's daemon started. -/
  testedAt : Option DateTime := none
  deriving DecidableEq

namespace GpuHealth

/-- Compute processes that hold less than this together do not make a card busy. -/
def busyVramMb : UInt64 := 1024

/-- Processes on the card hold enough VRAM to keep a job off it. -/
def busy (health : GpuHealth) : Bool := decide (busyVramMb ≤ health.processVramMb.getD 0)

/-- Why a job may not get the card now. -/
def blocked (health : GpuHealth) (unbooked : Bool) : Option String :=
  match health.quarantined with
  | some reason => some ("quarantined: " ++ reason)
  | none =>
    if unbooked && health.busy then
      some ("busy outside roster (" ++ toString (health.processVramMb.getD 0).toNat ++ " MB)")
    else if unbooked && !health.throttled.isEmpty then
      some ("throttled while idle: " ++ String.intercalate ", " health.throttled)
    else if unbooked && health.testedAt.isNone then some "not qualified yet"
    else none

/-- Tested since the node's daemon started, and not quarantined. -/
def qualified (health : GpuHealth) : Bool := health.testedAt.isSome && health.quarantined.isNone

/-- A card with nothing booked that is not blocked is qualified. -/
theorem qualified_of_blocked {health : GpuHealth} (h : health.blocked true = none) :
    health.qualified = true := by
  unfold blocked at h
  split at h
  · cases h
  · next hquarantined =>
    -- of the three reasons left, "not qualified yet" is the one about the test
    have htested : health.testedAt ≠ none := by
      intro hnone
      rw [hnone] at h
      split_ifs at h with hbusy hthrottled htested
      exact htested rfl
    simp [qualified, hquarantined, Option.isSome_iff_ne_none, htested]

/-- A card that is not blocked is not quarantined, booked or not. -/
theorem not_quarantined_of_blocked {health : GpuHealth} {unbooked : Bool}
    (h : health.blocked unbooked = none) : health.quarantined = none := by
  unfold blocked at h
  split at h
  · cases h
  · assumption

end GpuHealth

end Roster
