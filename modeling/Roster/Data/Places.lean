import Mathlib.Data.List.Nodup
import Mathlib.Data.Nat.Notation
import Mathlib.Tactic.SplitIfs

/-!
# Lists by their places

What stands at a place of a list once an element was appended or replaced, and where the front of a
list that meets a test ends.
-/

namespace Roster

variable {α β : Type*} {l : List α} {a b x : α} {i : ℕ}

/-- Only the new place is new. -/
theorem getElem?_append_singleton :
    (l ++ [a])[i]? = some x ↔ l[i]? = some x ∨ (i = l.length ∧ x = a) := by
  rw [List.getElem?_append]
  split_ifs with hlt
  · simp [Nat.ne_of_lt hlt]
  · rw [List.getElem?_eq_none (Nat.le_of_not_lt hlt), List.getElem?_singleton]
    split_ifs with heq
    · simp [show i = l.length by omega, eq_comm]
    · simp [show i ≠ l.length by omega]

/-- Replacing an element by one with the same `f`. -/
theorem map_set_of_eq {f : α → β} (hget : l[i]? = some a) (heq : f b = f a) :
    (l.set i b).map f = l.map f := by
  obtain ⟨hlt, rfl⟩ := List.getElem?_eq_some_iff.1 hget
  rw [List.map_set, heq, ← List.getElem_map f (h := by simpa using hlt), List.set_getElem_self]

/-- Where `f` tells the elements apart, only the one at its place is replaced. -/
theorem mem_set_of_nodup {f : α → β} (hnodup : (l.map f).Nodup) (hget : l[i]? = some a)
    (hx : x ∈ l.set i b) : x = b ∨ (x ∈ l ∧ f x ≠ f a) := by
  obtain ⟨j, hj⟩ := List.mem_iff_getElem?.1 hx
  rw [List.getElem?_set] at hj
  split_ifs at hj with hij hlt
  · exact .inl (Option.some.inj hj).symm
  · refine .inr ⟨List.mem_of_getElem? hj, fun heq => hij ?_⟩
    have hlt : i < (l.map f).length := by
      rw [List.length_map]
      exact (List.getElem?_eq_some_iff.1 hget).1
    exact (List.getElem?_inj hlt hnodup).1 (by simp [hget, hj, heq])

/-- The list goes on from a place with what it drops to there. -/
theorem getElem?_of_prefix {rest : List α} (h : (a :: rest) <+: l.drop i) :
    l[i]? = some a ∧ rest <+: l.drop (i + 1) := by
  obtain ⟨tail, htail⟩ := h
  have hget : (l.drop i)[0]? = some a := by rw [← htail]; rfl
  have hdrop : (l.drop i).drop 1 = rest ++ tail := by rw [← htail]; rfl
  rw [List.getElem?_drop, Nat.add_zero] at hget
  rw [List.drop_drop] at hdrop
  exact ⟨hget, tail, hdrop.symm⟩

theorem getLastD_append (l l' : List α) (a : α) :
    (l ++ l').getLastD a = l'.getLastD (l.getLastD a) := by
  rw [List.getLastD_eq_getLast?, List.getLastD_eq_getLast?, List.getLastD_eq_getLast?,
    List.getLast?_append]
  cases l'.getLast? <;> rfl

/-- After the front that meets a test stands the first element that does not. -/
theorem getElem?_length_takeWhile (p : α → Bool) (l : List α) :
    l[(l.takeWhile p).length]? = l.find? fun a => !p a := by
  induction l with
  | nil => rfl
  | cons a l ih => cases h : p a <;> simp [h, ih]

theorem takeWhile_append_cons {p : α → Bool} (l rest : List α) (h : p a = false) :
    (l ++ a :: rest).takeWhile p = l.takeWhile p := by
  induction l with
  | nil => simp [h]
  | cons b l ih => cases hb : p b <;> simp [hb, ih]

end Roster
