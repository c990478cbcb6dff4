import Mathlib.Data.Nat.Notation
import Mathlib.Logic.Function.Basic

/-!
# Prefix codes

A *prefix code* writes each value as a word that can be told from whatever comes after it.  Words of
one length are such a code (`PrefixCode.of_length`), and a text that is written word by word can be
read back (`PrefixCode.flatMap_injective`).
-/

namespace Roster

variable {α β : Type*}

/-- In front of any text, a word of the code and the text after it can be told. -/
def PrefixCode (f : α → List β) : Prop := ∀ ⦃a b s t⦄, f a ++ s = f b ++ t → a = b ∧ s = t

namespace PrefixCode

variable {f : α → List β}

theorem of_length {n : ℕ} (hlength : ∀ a, (f a).length = n) (hf : Function.Injective f) :
    PrefixCode f := by
  intro a b s t h
  obtain ⟨hword, hrest⟩ := List.append_inj h ((hlength a).trans (hlength b).symm)
  exact ⟨hf hword, hrest⟩

theorem injective (hf : PrefixCode f) : Function.Injective f := fun _ _ h =>
  (hf (congrArg (· ++ []) h)).1

/-- Words that are not empty can be read one after the other. -/
theorem flatMap_injective (hf : PrefixCode f) (hne : ∀ a, f a ≠ []) :
    Function.Injective (List.flatMap f) := by
  intro l l' h
  induction l generalizing l' with
  | nil =>
    cases l' with
    | nil => rfl
    | cons b l' => exact absurd (List.append_eq_nil_iff.1 h.symm).1 (hne b)
  | cons a l ih =>
    cases l' with
    | nil => exact absurd (List.append_eq_nil_iff.1 h).1 (hne a)
    | cons b l' =>
      obtain ⟨rfl, hrest⟩ := hf h
      rw [ih hrest]

end PrefixCode

end Roster
