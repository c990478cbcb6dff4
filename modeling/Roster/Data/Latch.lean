import Mathlib.Data.List.DropRight

/-!
# Latches

A latch holds the first cause it is given, until an event resets it.  `Latch.since` is the part of a
history that still counts, and what a latch holds is the first cause there (`Latch.foldl_hold`).
-/

namespace Roster

/-- Which events reset the latch, and which give it a cause. -/
structure Latch (ε α : Type*) where
  resets : ε → Bool
  cause : ε → Option α

namespace Latch

variable {ε α : Type*} (L : Latch ε α)

/-- What the latch holds after an event. -/
def hold (held : Option α) (event : ε) : Option α :=
  if L.resets event then none else held.or (L.cause event)

/-- The events since the last reset. -/
def since (events : List ε) : List ε := events.rtakeWhile fun event => !L.resets event

@[simp] theorem since_nil : L.since [] = [] := List.rtakeWhile_nil _

theorem since_concat (events : List ε) (event : ε) : L.since (events ++ [event]) =
    if L.resets event then [] else L.since events ++ [event] := by
  unfold since
  rw [List.rtakeWhile_concat]
  by_cases h : L.resets event = true <;> simp [h]

/-- **A latch holds the first cause since its last reset.** -/
theorem foldl_hold (events : List ε) :
    events.foldl L.hold none = (L.since events).findSome? L.cause := by
  induction events using List.reverseRecOn with
  | nil => simp
  | append_singleton events event ih =>
    rw [List.foldl_append, ih, since_concat, List.foldl_cons, List.foldl_nil, hold]
    split
    · rfl
    · rw [List.findSome?_append, List.findSome?_cons, List.findSome?_nil]
      cases L.cause event <;> rfl

end Latch

end Roster
