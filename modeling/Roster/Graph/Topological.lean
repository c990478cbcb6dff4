import Mathlib.Data.Set.Finite.List
import Mathlib.Logic.Relation
import Mathlib.Order.WellFounded

/-!
# Topological listings

A list is *topological* for a dependency function when every element comes after all its
dependencies.  Facts spread along such a list by induction (`Topological.induct`), and nothing that
comes before one of its elements depends on itself (`Topological.acyclic_before`).  Where every one
of finitely many elements waits for another of them, some element waits for itself
(`exists_cycle`), and so does something that comes before any given one (`exists_cycle_before`).
-/

namespace Roster

/-- Every element of the list comes after all its dependencies. -/
inductive Topological {α : Type*} (deps : α → List α) : List α → Prop
  | nil : Topological deps []
  | snoc {order : List α} {a : α} :
      Topological deps order → (∀ d ∈ deps a, d ∈ order) → Topological deps (order ++ [a])

namespace Topological

variable {α : Type*} {deps : α → List α} {order : List α}

/-- Induction along a topological listing. -/
theorem induct (h : Topological deps order) {P : α → Prop}
    (step : ∀ a ∈ order, (∀ d ∈ deps a, P d) → P a) : ∀ a ∈ order, P a := by
  induction h with
  | nil => simp
  | @snoc order a _ hdeps ih =>
    have hrest := ih fun b hb => step b (List.mem_append_left _ hb)
    intro b hb
    rcases List.mem_append.1 hb with hb | hb
    · exact hrest b hb
    · rw [List.mem_singleton] at hb
      subst hb
      exact step b (by simp) fun d hd => hrest d (hdeps d hd)

/-- Every element is reached after finitely many dependencies. -/
theorem acc (h : Topological deps order) :
    ∀ a ∈ order, Acc (fun d a => d ∈ deps a) a :=
  h.induct fun a _ hdeps => ⟨a, fun d hd => hdeps d hd⟩

/-- Nothing that comes before an element depends on itself, through however many steps. -/
theorem acyclic_before (h : Topological deps order) {a b : α} (ha : a ∈ order)
    (hbefore : Relation.ReflTransGen (fun d a => d ∈ deps a) b a) :
    ¬ Relation.TransGen (fun d a => d ∈ deps a) b b := by
  have hacc : Acc (Relation.TransGen fun d a => d ∈ deps a) b := by
    refine Acc.transGen ?_
    induction hbefore using Relation.ReflTransGen.head_induction_on with
    | refl => exact h.acc a ha
    | head hstep _ ih => exact ih.inv hstep
  clear hbefore
  intro hcycle
  induction hacc with
  | intro b _ ih => exact ih b hcycle hcycle

/-- No element depends on itself, through however many steps. -/
theorem acyclic (h : Topological deps order) {a : α} (ha : a ∈ order) :
    ¬ Relation.TransGen (fun d a => d ∈ deps a) a a :=
  h.acyclic_before ha .refl

end Topological

/-- Among finitely many elements that each come after another of them there is a cycle. -/
theorem exists_cycle {α : Type*} {r : α → α → Prop} {l : List α} (hne : l ≠ [])
    (h : ∀ a ∈ l, ∃ b ∈ l, r b a) : ∃ a ∈ l, Relation.TransGen r a a := by
  by_contra hacyclic
  push Not at hacyclic
  -- on the elements of the list, coming after in some steps is then a finite strict order
  let before : {a // a ∈ l} → {a // a ∈ l} → Prop := fun b a => Relation.TransGen r b.1 a.1
  have : Finite {a // a ∈ l} := List.finite_toSet l
  have : IsTrans _ before := ⟨fun _ _ _ => Relation.TransGen.trans⟩
  have : Std.Irrefl before := ⟨fun a => hacyclic a.1 a.2⟩
  have hwf : WellFounded before := Finite.wellFounded_of_trans_of_irrefl _
  obtain ⟨first, hfirst⟩ := List.exists_mem_of_ne_nil l hne
  obtain ⟨least, -, hleast⟩ := hwf.has_min Set.univ ⟨⟨first, hfirst⟩, Set.mem_univ _⟩
  obtain ⟨b, hb, hr⟩ := h least.1 least.2
  exact hleast ⟨b, hb⟩ (Set.mem_univ _) (.single hr)

/-- Each of these elements comes after a cycle, or lies on one. -/
theorem exists_cycle_before {α : Type*} {r : α → α → Prop} {l : List α}
    (h : ∀ a ∈ l, ∃ b ∈ l, r b a) {a : α} (ha : a ∈ l) :
    ∃ b, Relation.TransGen r b b ∧ Relation.ReflTransGen r b a := by
  classical
  -- each element that comes before `a` comes after another one that does
  let before := l.filter fun b => Relation.ReflTransGen r b a
  have hne : before ≠ [] :=
    List.ne_nil_of_mem (List.mem_filter.2 ⟨ha, decide_eq_true Relation.ReflTransGen.refl⟩)
  obtain ⟨b, hb, hcycle⟩ := exists_cycle (r := r) hne fun b hb => by
    obtain ⟨hb, hba⟩ := List.mem_filter.1 hb
    obtain ⟨c, hc, hcb⟩ := h b hb
    exact ⟨c, List.mem_filter.2 ⟨hc, decide_eq_true (.head hcb (of_decide_eq_true hba))⟩, hcb⟩
  exact ⟨b, hcycle, of_decide_eq_true (List.mem_filter.1 hb).2⟩

end Roster
