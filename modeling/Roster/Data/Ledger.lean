import Mathlib.Algebra.BigOperators.Group.Multiset.Basic
import Mathlib.Algebra.BigOperators.Pi
import Mathlib.Algebra.Order.BigOperators.Group.Multiset
import Mathlib.Algebra.Order.Pi
import Mathlib.Algebra.Order.Monoid.Canonical.Defs

/-!
# Ledgers

What accounting for shared resources means, over any commutative monoid of amounts: what is free
and what the outstanding claims hold add up to what there is (`Ledger.Balanced`).  Taking a claim
out of what is free and giving one back keep the balance (`Balanced.take`, `Balanced.give`), so
no history of takes and gives leaks or duplicates anything.

An *indivisible* resource is a coordinate at which every claim is nothing or the whole
(`Ledger.unit_claims`): there, free or taken by exactly one claim are the only two cases.
-/

namespace Roster

namespace Ledger

section Balance

variable {A : Type*} [AddCommMonoid A] {total free free' a : A} {held held' : Multiset A}

/-- What is free and what the claims hold add up to what there is. -/
def Balanced (total free : A) (held : Multiset A) : Prop := free + held.sum = total

theorem balanced_zero (total : A) : Balanced total total 0 := by simp [Balanced]

theorem Balanced.take (h : Balanced total free held) (hf : free' + a = free) :
    Balanced total free' (a ::ₘ held) := by
  unfold Balanced at h ⊢
  rw [Multiset.sum_cons, ← add_assoc, hf, h]

theorem Balanced.give (h : Balanced total free (a ::ₘ held)) (hf : free' = free + a) :
    Balanced total free' held := by
  unfold Balanced at h ⊢
  rw [Multiset.sum_cons, ← add_assoc] at h
  rw [hf, h]

/-- Once every claim is given back, everything is free again. -/
theorem Balanced.restored (h : Balanced total free 0) : free = total := by
  simpa [Balanced] using h

/-- A ledger of vectors is a ledger in every coordinate. -/
theorem Balanced.coord {ι : Type*} {total free : ι → A} {held : Multiset (ι → A)}
    (h : Balanced total free held) (i : ι) :
    Balanced (total i) (free i) (held.map fun a => a i) := by
  have hi := congrFun h i
  rwa [Pi.add_apply, Pi.multiset_sum_apply] at hi

end Balance

section Order

variable {A : Type*} [AddCommMonoid A] [PartialOrder A] [CanonicallyOrderedAdd A]
  {total free a : A} {held held' : Multiset A}

theorem Balanced.free_le (h : Balanced total free held) : free ≤ total := by
  unfold Balanced at h
  exact h ▸ le_self_add

/-- A claim can always be given back: it fits beside what is free. -/
theorem Balanced.free_add_le (h : Balanced total free (a ::ₘ held)) : free + a ≤ total := by
  unfold Balanced at h
  rw [Multiset.sum_cons, ← add_assoc] at h
  exact h ▸ le_self_add

end Order

/-- An indivisible resource is free and in no claim, or not free and in exactly one. -/
theorem unit_claims {total free : ℕ} {held : Multiset ℕ} (h : Balanced total free held)
    (hpos : 0 < total) (hunit : ∀ a ∈ held, a = 0 ∨ a = total) :
    (free = total ∧ held.count total = 0) ∨ (free = 0 ∧ held.count total = 1) := by
  have hsum : held.sum = held.count total * total := by
    clear h
    induction held using Multiset.induction with
    | empty => simp
    | cons a held ih =>
      have ih := ih fun b hb => hunit b (Multiset.mem_cons_of_mem hb)
      rcases hunit a (Multiset.mem_cons_self a held) with rfl | rfl
      · rw [Multiset.sum_cons, ih, Multiset.count_cons_of_ne (by omega), Nat.zero_add]
      · rw [Multiset.sum_cons, ih, Multiset.count_cons_self, Nat.succ_mul, Nat.add_comm]
  unfold Balanced at h
  rw [hsum] at h
  match hc : held.count total with
  | 0 => rw [hc] at h; exact .inl ⟨by omega, rfl⟩
  | 1 => rw [hc] at h; exact .inr ⟨by omega, rfl⟩
  | n + 2 =>
    rw [hc, Nat.succ_mul, Nat.succ_mul] at h
    omega

end Ledger

end Roster
