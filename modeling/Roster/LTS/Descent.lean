import Roster.LTS.Basic
import Mathlib.Order.WellFounded

/-!
# Runs that get somewhere

Three uses of a measure on the states.  A measure that no step raises and some steps lower comes
down to 0 in a run that performs enough of those (`Trace.descend`), and if they can only be
performed where there is something to lower, it bounds how many there are (`Trace.spend`); a measure
that can be lowered wherever the goal is not reached gives a run to the goal (`Reach.descend`).
-/

namespace Roster.LTS

variable {S L : Type*} {A : LTS S L} {I : S → Prop}

/-- A measure that no step raises, and each of the counted steps lowers while it is not 0, has come
down by the number of counted steps. -/
theorem Trace.descend {μ : S → ℕ} {s s' : S} {ls : List L} (h : A.Trace s ls s')
    (counts : L → Bool) (init : I s)
    (preserved : ∀ s l s', I s → A.step s l s' → I s')
    (lowers : ∀ s l s', I s → A.step s l s' → μ s' ≤ μ s - if counts l then 1 else 0) :
    I s' ∧ μ s' ≤ μ s - ls.countP counts := by
  induction h with
  | nil => exact ⟨init, Nat.le_refl _⟩
  | @cons s mid s' l ls hst _ ih =>
    obtain ⟨hI, hrest⟩ := ih (preserved _ _ _ init hst)
    have hfirst := lowers _ _ _ init hst
    refine ⟨hI, ?_⟩
    rw [List.countP_cons]
    omega

/-- Steps that each spend some of what no step gives back. -/
theorem Trace.spend {μ : S → ℕ} {s s' : S} {ls : List L} (h : A.Trace s ls s') (counts : L → Bool)
    (spends : ∀ s l s', A.step s l s' → μ s' + (if counts l then 1 else 0) ≤ μ s) :
    μ s' + ls.countP counts ≤ μ s := by
  induction h with
  | nil => exact Nat.le_refl _
  | cons hst _ ih =>
    have hfirst := spends _ _ _ hst
    rw [List.countP_cons]
    omega

/-- If from every state that is not at the goal a run leads to a smaller one, then a run leads to
the goal. -/
theorem Reach.descend {α : Type*} [Preorder α] [WellFoundedLT α] (rank : S → α) (goal : S → Prop)
    (smaller : ∀ s, I s → ¬ goal s → ∃ s', A.Reach s s' ∧ I s' ∧ rank s' < rank s) {s : S}
    (init : I s) : ∃ s', A.Reach s s' ∧ I s' ∧ goal s' := by
  induction hr : rank s using WellFoundedLT.induction generalizing s with
  | ind r ih =>
    subst hr
    by_cases hgoal : goal s
    · exact ⟨s, .refl, init, hgoal⟩
    · obtain ⟨mid, hmid, hI, hlt⟩ := smaller s init hgoal
      obtain ⟨s', hrest, hI', hgoal'⟩ := ih (rank mid) hlt hI rfl
      exact ⟨s', hmid.trans hrest, hI', hgoal'⟩

end Roster.LTS
