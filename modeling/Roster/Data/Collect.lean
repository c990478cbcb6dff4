import Mathlib.Data.List.Nodup

/-!
# Collecting into a list

A function that is passed a list to add to *collects* the elements of a property when it adds exactly
those, and never one that is in the list already.  Such functions compose, also along a loop.
-/

namespace Roster

variable {α β : Type*} {f g : List α → List α} {P Q : α → Prop}

/-- `f` adds exactly the elements of `P`, none of them twice. -/
structure Collects (f : List α → List α) (P : α → Prop) : Prop where
  mem : ∀ {l x}, x ∈ f l ↔ x ∈ l ∨ P x
  nodup : ∀ {l}, l.Nodup → (f l).Nodup

/-- `if !l.contains(&x) { l.push(x) }`. -/
def pushNew [DecidableEq α] (x : α) (l : List α) : List α := if x ∈ l then l else l ++ [x]

namespace Collects

theorem nothing : Collects (fun l : List α => l) fun _ => False where
  mem := by simp
  nodup := id

theorem pushNew [DecidableEq α] (x : α) : Collects (pushNew x) (· = x) where
  mem := by
    intro l y
    unfold Roster.pushNew
    split
    · next hx => exact ⟨.inl, fun hy => hy.elim id fun heq => heq ▸ hx⟩
    · rw [List.mem_append, List.mem_singleton]
  nodup := by
    intro l hl
    unfold Roster.pushNew
    split
    · exact hl
    · next hx =>
      exact List.nodup_append.2 ⟨hl, List.nodup_singleton _, fun a ha b hb hab =>
        hx (List.mem_singleton.1 hb ▸ hab ▸ ha)⟩

theorem congr (hf : Collects f P) (h : ∀ x, P x ↔ Q x) : Collects f Q where
  mem := by
    intro l x
    rw [hf.mem, h]
  nodup := hf.nodup

/-- One after the other. -/
theorem trans (hf : Collects f P) (hg : Collects g Q) :
    Collects (fun l => g (f l)) fun x => P x ∨ Q x where
  mem := by
    intro l x
    rw [hg.mem, hf.mem, or_assoc]
  nodup hl := hg.nodup (hf.nodup hl)

theorem ite (c : Prop) [Decidable c] (hf : Collects f P) :
    Collects (fun l => if c then f l else l) fun x => c ∧ P x := by
  by_cases hc : c
  · simpa [hc] using hf
  · simpa [hc] using nothing

/-- For every element of a list. -/
theorem foldl {step : β → List α → List α} {R : β → α → Prop} {items : List β}
    (hstep : ∀ item ∈ items, Collects (step item) (R item)) :
    Collects (fun l => items.foldl (fun l item => step item l) l) fun x =>
      ∃ item ∈ items, R item x := by
  induction items with
  | nil => simpa using nothing
  | cons item items ih =>
    obtain ⟨hitem, hitems⟩ := List.forall_mem_cons.1 hstep
    exact (hitem.trans (ih hitems)).congr fun x => by simp

end Collects

end Roster
