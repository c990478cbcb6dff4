import Mathlib.Logic.Relation

/-!
# Labelled transition systems with guarded runs

The scheduler, the cluster, the event ring and the resource pool are all given as a relation
`step s l s'`.  A property of "every run" is a property of the reachable states, and a property
of "every run whose steps avoid …" is one of the reachable states of the *guarded* system, in
which only the steps satisfying the guard remain.

## Main definitions

* `LTS S L` : a transition relation `S → L → S → Prop`.
* `LTS.Reach s₀ s` : `s` is reached from `s₀` by finitely many steps.
* `LTS.guard G` : the system that keeps the steps `s —l→` with `G s l`.
* `LTS.Trace s ls s'` : performing the labels `ls` in order leads from `s` to `s'`.
* `LTS.ofPerform f` : the system of a step function `f : S → L → Option S`.
* `LTS.PerformsAt P l s ls` : among the labels `ls` from `s`, some `l` is performed where `P` holds.
-/

namespace Roster

/-- A labelled transition system with states `S` and labels `L`. -/
structure LTS (S : Type*) (L : Type*) where
  /-- `step s l s'` : in `s` the system can perform `l` and move to `s'`. -/
  step : S → L → S → Prop

namespace LTS

variable {S L : Type*}

/-- `s` is reached from `s₀`. -/
inductive Reach (A : LTS S L) (s₀ : S) : S → Prop
  | refl : Reach A s₀ s₀
  | tail {s s' : S} {l : L} : Reach A s₀ s → A.step s l s' → Reach A s₀ s'

/-- Keep only the steps that satisfy the guard `G`. -/
def guard (A : LTS S L) (G : S → L → Prop) : LTS S L where
  step s l s' := G s l ∧ A.step s l s'

/-- Performing the labels `ls` in order leads from `s` to `s'`. -/
inductive Trace (A : LTS S L) : S → List L → S → Prop
  | nil (s : S) : Trace A s [] s
  | cons {s s' s'' : S} {l : L} {ls : List L} :
      A.step s l s' → Trace A s' ls s'' → Trace A s (l :: ls) s''

/-- Among the labels `ls`, performed from `s`, there is an `l` performed in a state with `P`. -/
def PerformsAt (A : LTS S L) (P : S → Prop) (l : L) (s : S) (ls : List L) : Prop :=
  ∃ before after mid, ls = before ++ l :: after ∧ A.Trace s before mid ∧ P mid

/-- The system of a step function that is `none` where there is no step. -/
def ofPerform (perform : S → L → Option S) : LTS S L where
  step s l s' := perform s l = some s'

/-- Perform the labels in order. -/
def performs (perform : S → L → Option S) (s : S) : List L → Option S
  | [] => some s
  | l :: ls => (perform s l).bind fun s' => performs perform s' ls

variable {A : LTS S L}

namespace Reach

/-- Induction over runs: what holds at the start and is preserved by every step from a
reachable state holds in every reachable state. -/
theorem invariant {I : S → Prop} {s₀ s : S} (h : A.Reach s₀ s) (init : I s₀)
    (preserved : ∀ s l s', A.Reach s₀ s → I s → A.step s l s' → I s') : I s := by
  induction h with
  | refl => exact init
  | tail hs hst ih => exact preserved _ _ _ hs ih hst

theorem trans {s₁ s₂ s₃ : S} (h₁ : A.Reach s₁ s₂) (h₂ : A.Reach s₂ s₃) : A.Reach s₁ s₃ := by
  induction h₂ with
  | refl => exact h₁
  | tail _ hst ih => exact ih.tail hst

/-- A guarded run is a run. -/
theorem of_guard {G : S → L → Prop} {s₀ s : S} (h : (A.guard G).Reach s₀ s) : A.Reach s₀ s := by
  induction h with
  | refl => exact .refl
  | tail _ hst ih => exact ih.tail hst.2

/-- Weakening a guard keeps every run. -/
theorem guard_mono {G G' : S → L → Prop} (himp : ∀ s l, G s l → G' s l) {s₀ s : S}
    (h : (A.guard G).Reach s₀ s) : (A.guard G').Reach s₀ s := by
  induction h with
  | refl => exact .refl
  | tail _ hst ih => exact ih.tail ⟨himp _ _ hst.1, hst.2⟩

end Reach

/-- What a function that performs labels one after the other leads to is reached, under a guard
that the labels meet. -/
theorem Reach.of_run {run : S → List L → Option S} {G : S → L → Prop} {s s' : S} {ls : List L}
    (hnil : ∀ s, run s [] = some s)
    (hcons : ∀ s l ls s', run s (l :: ls) = some s' →
      ∃ mid, A.step s l mid ∧ run mid ls = some s')
    (h : run s ls = some s') (hG : ∀ s, ∀ l ∈ ls, G s l) : (A.guard G).Reach s s' := by
  induction ls generalizing s with
  | nil =>
    rw [hnil, Option.some.injEq] at h
    subst h
    exact .refl
  | cons l ls ih =>
    obtain ⟨mid, hmid, hrest⟩ := hcons s l ls s' h
    have hfirst : (A.guard G).Reach s mid := .tail .refl ⟨hG s l List.mem_cons_self, hmid⟩
    exact hfirst.trans (ih hrest fun s l hmem => hG s l (List.mem_cons_of_mem _ hmem))

theorem Reach.of_performs {perform : S → L → Option S} {G : S → L → Prop} {s s' : S} {ls : List L}
    (h : performs perform s ls = some s') (hG : ∀ s, ∀ l ∈ ls, G s l) :
    ((ofPerform perform).guard G).Reach s s' :=
  .of_run (fun _ => rfl) (fun _ _ _ _ => Option.bind_eq_some_iff.1) h hG

namespace Trace

theorem reach {s s' : S} {ls : List L} (h : A.Trace s ls s') : A.Reach s s' := by
  induction h with
  | nil => exact .refl
  | cons hst _ ih => exact (Reach.refl.tail hst).trans ih

theorem cons_iff {s s' : S} {l : L} {ls : List L} :
    A.Trace s (l :: ls) s' ↔ ∃ mid, A.step s l mid ∧ A.Trace mid ls s' := by
  constructor
  · rintro (_ | ⟨hst, htrace⟩); exact ⟨_, hst, htrace⟩
  · rintro ⟨mid, hst, htrace⟩; exact .cons hst htrace

theorem append_iff {s s' : S} {ls ls' : List L} :
    A.Trace s (ls ++ ls') s' ↔ ∃ mid, A.Trace s ls mid ∧ A.Trace mid ls' s' := by
  induction ls generalizing s with
  | nil =>
    refine ⟨fun h => ⟨s, .nil s, h⟩, ?_⟩
    rintro ⟨mid, hnil, h⟩
    cases hnil
    exact h
  | cons l ls ih =>
    simp only [List.cons_append, cons_iff, ih]
    constructor
    · rintro ⟨first, hst, mid, hmid, hrest⟩; exact ⟨mid, ⟨first, hst, hmid⟩, hrest⟩
    · rintro ⟨mid, ⟨first, hst, hmid⟩, hrest⟩; exact ⟨first, hst, mid, hmid, hrest⟩

/-- What the steps of a trace preserve, the trace preserves. -/
theorem invariant {I : S → Prop} {s s' : S} {ls : List L} (h : A.Trace s ls s') (init : I s)
    (preserved : ∀ s l s', l ∈ ls → I s → A.step s l s' → I s') : I s' := by
  induction h with
  | nil => exact init
  | cons hst _ ih =>
    exact ih (preserved _ _ _ List.mem_cons_self init hst) fun s l s' hl =>
      preserved s l s' (List.mem_cons_of_mem _ hl)

/-- In a deterministic system the labels determine where a trace leads. -/
theorem unique (hdet : ∀ s l s₁ s₂, A.step s l s₁ → A.step s l s₂ → s₁ = s₂) {s s₁ s₂ : S}
    {ls : List L} (h₁ : A.Trace s ls s₁) (h₂ : A.Trace s ls s₂) : s₁ = s₂ := by
  induction h₁ with
  | nil => cases h₂; rfl
  | cons hst _ ih =>
    obtain ⟨mid, hst', htrace⟩ := cons_iff.1 h₂
    obtain rfl := hdet _ _ _ _ hst hst'
    exact ih htrace

end Trace

theorem performsAt_nil {P : S → Prop} {l : L} {s : S} : ¬ A.PerformsAt P l s [] := by
  rintro ⟨before, after, mid, heq, -⟩
  exact List.append_ne_nil_of_right_ne_nil before (List.cons_ne_nil l after) heq.symm

theorem performsAt_cons (hdet : ∀ s l s₁ s₂, A.step s l s₁ → A.step s l s₂ → s₁ = s₂)
    {P : S → Prop} {l l' : L} {s mid : S} {ls : List L} (hst : A.step s l' mid) :
    A.PerformsAt P l s (l' :: ls) ↔ (l' = l ∧ P s) ∨ A.PerformsAt P l mid ls := by
  constructor
  · rintro ⟨before, after, last, heq, htrace, hP⟩
    cases before with
    | nil =>
      cases htrace
      exact .inl ⟨(List.cons.inj heq).1, hP⟩
    | cons l₁ before =>
      obtain ⟨rfl, rfl⟩ := List.cons.inj heq
      obtain ⟨first, hfirst, hrest⟩ := Trace.cons_iff.1 htrace
      obtain rfl := hdet _ _ _ _ hst hfirst
      exact .inr ⟨before, after, last, rfl, hrest, hP⟩
  · rintro (⟨rfl, hP⟩ | ⟨before, after, last, rfl, htrace, hP⟩)
    · exact ⟨[], ls, s, rfl, .nil s, hP⟩
    · exact ⟨l' :: before, after, last, rfl, .cons hst htrace, hP⟩

theorem performsAt_append (hdet : ∀ s l s₁ s₂, A.step s l s₁ → A.step s l s₂ → s₁ = s₂)
    {P : S → Prop} {l : L} {s mid : S} {ls ls' : List L} (h : A.Trace s ls mid) :
    A.PerformsAt P l s (ls ++ ls') ↔ A.PerformsAt P l s ls ∨ A.PerformsAt P l mid ls' := by
  induction h with
  | nil => simp [performsAt_nil]
  | cons hst _ ih =>
    rw [List.cons_append, performsAt_cons hdet hst, performsAt_cons hdet hst, ih, or_assoc]

end LTS

end Roster
