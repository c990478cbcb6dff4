import Mathlib.Data.List.Forall2
import Mathlib.Tactic.SplitIfs

/-!
# Upper and lower case

`eq_ignore_ascii_case` compares two texts as if their ASCII letters were in one case.  Against a text
of lower case letters it finds exactly the texts that have each letter in either case
(`eqIgnoreAsciiCase_iff`).
-/

namespace Roster

/-- `eq_ignore_ascii_case`. -/
def eqIgnoreAsciiCase (text other : String) : Bool :=
  text.toList.map Char.toLower == other.toList.map Char.toLower

/-- The text has the letters of `lower`, each in lower or upper case. -/
def InAnyCase (lower text : String) : Prop :=
  List.Forall₂ (fun c l => c = l ∨ c = l.toUpper) text.toList lower.toList

theorem toNat_toLower (c : Char) :
    c.toLower.toNat = if 65 ≤ c.toNat ∧ c.toNat ≤ 90 then c.toNat + 32 else c.toNat := by
  simp only [← Char.toNat_val]
  delta Char.toLower
  split <;> grind [UInt32.toNat_add, UInt32.le_iff_toNat_le]

theorem toNat_toUpper (c : Char) :
    c.toUpper.toNat = if 97 ≤ c.toNat ∧ c.toNat ≤ 122 then c.toNat - 32 else c.toNat := by
  simp only [← Char.toNat_val]
  delta Char.toUpper
  split <;> grind [UInt32.toNat_add, UInt32.le_iff_toNat_le]

theorem isLower_iff {c : Char} : c.isLower ↔ 97 ≤ c.toNat ∧ c.toNat ≤ 122 := by
  delta Char.isLower
  simp [UInt32.le_iff_toNat_le]

/-- In one case, a letter is equal to the lower case letter and to its upper case. -/
theorem toLower_eq_iff {c l : Char} (hl : l.isLower) :
    c.toLower = l.toLower ↔ c = l ∨ c = l.toUpper := by
  rw [isLower_iff] at hl
  simp only [← Char.toNat_inj, toNat_toLower, toNat_toUpper]
  split_ifs <;> omega

/-- A text is a word in any case exactly if the comparison says so. -/
theorem eqIgnoreAsciiCase_iff {text lower : String}
    (hlower : ∀ l ∈ lower.toList, l.isLower) :
    eqIgnoreAsciiCase text lower = true ↔ InAnyCase lower text := by
  rw [eqIgnoreAsciiCase, InAnyCase, beq_iff_eq, ← List.forall₂_eq_eq_eq, List.forall₂_map_left_iff,
    List.forall₂_map_right_iff, List.forall₂_iff_get, List.forall₂_iff_get]
  refine and_congr_right fun _ => forall_congr' fun i => forall_congr' fun _ => ?_
  exact forall_congr' fun hi => toLower_eq_iff (hlower _ (List.get_mem _ ⟨i, hi⟩))

end Roster
