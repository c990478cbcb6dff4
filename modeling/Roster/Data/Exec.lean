import Mathlib.Data.UInt

/-!
# Computations that may panic

Rust code stops its task on an arithmetic overflow (in a build with overflow checks; without
them the amount wraps and is wrong from then on), on an underflow and on an index outside a
vector.  `Exec α` is a computation that returns an `α` or stops with the reason.

Every operation has one equation that says when it succeeds and what it returns; proofs about
code that uses it rewrite with that equation and never unfold the operation.
-/

universe u

namespace Roster

/-- Why a computation stopped. -/
inductive Panic
  | overflow
  | underflow
  | indexOutOfBounds
  deriving DecidableEq, Repr

/-- A computation that returns a value or panics. -/
abbrev Exec := Except Panic

namespace Exec

variable {α β : Type u}

instance [DecidableEq α] : DecidableEq (Exec α) := fun
  | .ok a, .ok b => decidable_of_iff (a = b) (by simp)
  | .error p, .error q => decidable_of_iff (p = q) (by simp)
  | .ok _, .error _ => isFalse (by simp)
  | .error _, .ok _ => isFalse (by simp)

@[simp] theorem bind_eq_ok {x : Exec α} {f : α → Exec β} {b : β} :
    (x >>= f) = .ok b ↔ ∃ a, x = .ok a ∧ f a = .ok b := by
  cases x <;> simp [bind, Except.bind]

@[simp] theorem pure_eq_ok {a b : α} : (pure a : Exec α) = .ok b ↔ a = b := by
  simp [pure, Except.pure]

@[simp] theorem map_eq_ok {x : Exec α} {f : α → β} {b : β} :
    f <$> x = .ok b ↔ ∃ a, x = .ok a ∧ f a = b := by
  cases x <;> simp [Functor.map, Except.map]

@[simp] theorem ok_bind (a : α) (f : α → Exec β) : ((.ok a : Exec α) >>= f) = f a := rfl

@[simp] theorem error_bind (p : Panic) (f : α → Exec β) :
    ((.error p : Exec α) >>= f) = .error p := rfl

/-- `a + b` on `u32`. -/
def addU32 (a b : UInt32) : Exec UInt32 :=
  if a.toNat + b.toNat < UInt32.size then .ok (a + b) else .error .overflow

/-- `a - b` on `u32`. -/
def subU32 (a b : UInt32) : Exec UInt32 := if b ≤ a then .ok (a - b) else .error .underflow

/-- `a + b` on `u64`. -/
def addU64 (a b : UInt64) : Exec UInt64 :=
  if a.toNat + b.toNat < UInt64.size then .ok (a + b) else .error .overflow

/-- `a - b` on `u64`. -/
def subU64 (a b : UInt64) : Exec UInt64 := if b ≤ a then .ok (a - b) else .error .underflow

theorem addU32_eq_ok {a b c : UInt32} : addU32 a b = .ok c ↔ c.toNat = a.toNat + b.toNat := by
  have hc := c.toNat_lt
  unfold addU32
  split
  · next h =>
    rw [Except.ok.injEq, ← UInt32.toNat_inj, UInt32.toNat_add, Nat.mod_eq_of_lt h]
    exact eq_comm
  · next h => simp only [UInt32.size] at h; simp; omega

theorem subU32_eq_ok {a b c : UInt32} : subU32 a b = .ok c ↔ c.toNat + b.toNat = a.toNat := by
  unfold subU32
  split
  · next h =>
    have hle := UInt32.le_iff_toNat_le.1 h
    rw [Except.ok.injEq, ← UInt32.toNat_inj, UInt32.toNat_sub_of_le _ _ h]
    omega
  · next h => rw [UInt32.le_iff_toNat_le] at h; simp; omega

theorem addU64_eq_ok {a b c : UInt64} : addU64 a b = .ok c ↔ c.toNat = a.toNat + b.toNat := by
  have hc := c.toNat_lt
  unfold addU64
  split
  · next h =>
    rw [Except.ok.injEq, ← UInt64.toNat_inj, UInt64.toNat_add, Nat.mod_eq_of_lt h]
    exact eq_comm
  · next h => simp only [UInt64.size] at h; simp; omega

theorem subU64_eq_ok {a b c : UInt64} : subU64 a b = .ok c ↔ c.toNat + b.toNat = a.toNat := by
  unfold subU64
  split
  · next h =>
    have hle := UInt64.le_iff_toNat_le.1 h
    rw [Except.ok.injEq, ← UInt64.toNat_inj, UInt64.toNat_sub_of_le _ _ h]
    omega
  · next h => rw [UInt64.le_iff_toNat_le] at h; simp; omega

/-- `xs[i]`. -/
def index (xs : List α) (i : ℕ) : Exec α :=
  match xs[i]? with
  | some x => .ok x
  | none => .error .indexOutOfBounds

@[simp] theorem index_eq_ok {xs : List α} {i : ℕ} {x : α} :
    index xs i = .ok x ↔ xs[i]? = some x := by
  unfold index; split <;> simp_all

/-- `xs[i] = f(xs[i])`. -/
def update (xs : List α) (i : ℕ) (f : α → Exec α) : Exec (List α) := do
  let x ← index xs i
  let y ← f x
  return xs.set i y

theorem update_eq_ok {xs ys : List α} {i : ℕ} {f : α → Exec α} :
    update xs i f = .ok ys ↔ ∃ x y, xs[i]? = some x ∧ f x = .ok y ∧ xs.set i y = ys := by
  simp only [update, bind_eq_ok, index_eq_ok, pure_eq_ok]
  grind

/-- What every step of a loop keeps, the loop keeps. -/
theorem foldlM_invariant {f : β → α → Exec β} {l : List α} {P : β → Prop}
    (hstep : ∀ b a b', a ∈ l → P b → f b a = .ok b' → P b') {b b' : β}
    (h : l.foldlM f b = .ok b') (hb : P b) : P b' := by
  induction l generalizing b with
  | nil => exact Exec.pure_eq_ok.1 h ▸ hb
  | cons a l ih =>
    rw [List.foldlM_cons, bind_eq_ok] at h
    obtain ⟨mid, hmid, hrest⟩ := h
    exact ih (fun b a b' ha => hstep b a b' (List.mem_cons_of_mem _ ha)) hrest
      (hstep b a mid List.mem_cons_self hb hmid)

/-- A loop whose steps all succeed and keep `P` succeeds and keeps it. -/
theorem foldlM_total {f : β → α → Exec β} {l : List α} {P : β → Prop}
    (hstep : ∀ b a, a ∈ l → P b → ∃ b', f b a = .ok b' ∧ P b') {b : β} (hb : P b) :
    ∃ b', l.foldlM f b = .ok b' ∧ P b' := by
  induction l generalizing b with
  | nil => exact ⟨b, rfl, hb⟩
  | cons a l ih =>
    obtain ⟨mid, hmid, hkept⟩ := hstep b a List.mem_cons_self hb
    obtain ⟨b', hrest, hdone⟩ := ih (fun b a ha => hstep b a (List.mem_cons_of_mem _ ha)) hkept
    exact ⟨b', by rw [List.foldlM_cons, hmid, ok_bind, hrest], hdone⟩

/-- A loop on one representation of the state does what the loop on another one does, if every turn
does; `φ` and `r` give the representations of the states and of the elements. -/
theorem foldlM_simulates {γ δ : Type u} {f : β → α → Exec β} {g : γ → δ → Exec γ} {φ : γ → β}
    {r : α → δ} {l : List α} (hstep : ∀ c, ∀ a ∈ l, f (φ c) a = φ <$> g c (r a)) (c : γ) :
    l.foldlM f (φ c) = φ <$> (l.map r).foldlM g c := by
  induction l generalizing c with
  | nil => rfl
  | cons a l ih =>
    rw [List.map_cons, List.foldlM_cons, List.foldlM_cons, hstep c a List.mem_cons_self]
    cases g c (r a) with
    | error panic => rfl
    | ok mid => exact ih (fun c a ha => hstep c a (List.mem_cons_of_mem _ ha)) mid

/-- What succeeds for every element succeeds for all of them, with a result for each. -/
theorem mapM_total {f : α → Exec β} {l : List α} {P : α → β → Prop}
    (h : ∀ a ∈ l, ∃ b, f a = .ok b ∧ P a b) : ∃ bs, l.mapM f = .ok bs ∧ bs.length = l.length ∧
      ∀ (i : ℕ) (a : α) (b : β), l[i]? = some a → bs[i]? = some b → P a b := by
  induction l with
  | nil => exact ⟨[], rfl, rfl, fun i a b ha => by cases ha⟩
  | cons a l ih =>
    obtain ⟨b, hb, hP⟩ := h a List.mem_cons_self
    obtain ⟨bs, hbs, hlen, hall⟩ := ih fun a ha => h a (List.mem_cons_of_mem _ ha)
    refine ⟨b :: bs, by rw [List.mapM_cons, hb, ok_bind, hbs, ok_bind]; rfl, by simp [hlen], ?_⟩
    intro i a' b' ha' hb'
    cases i with
    | zero => exact Option.some.inj ha' ▸ Option.some.inj hb' ▸ hP
    | succ i => exact hall i a' b' ha' hb'

/-! ### Panics -/

/-- The computation stops with an overflow at most. -/
def OnlyOverflows (x : Exec α) : Prop := ∀ panic, x = .error panic → panic = .overflow

theorem OnlyOverflows.of_ok {x : Exec α} {a : α} (h : x = .ok a) : OnlyOverflows x := by
  rintro panic rfl
  cases h

theorem OnlyOverflows.bind {x : Exec α} {f : α → Exec β} (h : OnlyOverflows x)
    (hf : ∀ a, x = .ok a → OnlyOverflows (f a)) : OnlyOverflows (x >>= f) := by
  intro panic hpanic
  cases x with
  | error p => exact h panic (congrArg Except.error (Except.error.inj hpanic))
  | ok a => exact hf a rfl panic hpanic

theorem onlyOverflows_addU32 (a b : UInt32) : OnlyOverflows (addU32 a b) := by
  unfold addU32
  split
  · exact .of_ok rfl
  · rintro _ ⟨⟩; rfl

theorem onlyOverflows_addU64 (a b : UInt64) : OnlyOverflows (addU64 a b) := by
  unfold addU64
  split
  · exact .of_ok rfl
  · rintro _ ⟨⟩; rfl

theorem onlyOverflows_update {xs : List α} {i : ℕ} {f : α → Exec α} (hi : i < xs.length)
    (hf : ∀ x, OnlyOverflows (f x)) : OnlyOverflows (update xs i f) := by
  have hindex : index xs i = .ok xs[i] := index_eq_ok.2 (List.getElem?_eq_getElem hi)
  exact (OnlyOverflows.of_ok hindex).bind fun x _ => (hf x).bind fun y _ => .of_ok rfl

/-- A loop whose steps keep `P` and stop with an overflow at most does so too. -/
theorem onlyOverflows_foldlM {f : β → α → Exec β} {l : List α} {P : β → Prop}
    (hstep : ∀ b a, a ∈ l → P b → OnlyOverflows (f b a) ∧ ∀ b', f b a = .ok b' → P b') {b : β}
    (hb : P b) : OnlyOverflows (l.foldlM f b) := by
  induction l generalizing b with
  | nil => exact .of_ok rfl
  | cons a l ih =>
    obtain ⟨hfirst, hkept⟩ := hstep b a List.mem_cons_self hb
    rw [List.foldlM_cons]
    exact hfirst.bind fun mid hmid =>
      ih (fun b a ha => hstep b a (List.mem_cons_of_mem _ ha)) (hkept mid hmid)

end Exec

end Roster
