import Mathlib.Algebra.BigOperators.Group.Finset.Basic
import Mathlib.Algebra.BigOperators.Group.Finset.Piecewise
import Mathlib.Algebra.Order.BigOperators.Group.Finset
import Mathlib.Data.Fintype.Basic
import Roster.LTS.Basic

/-!
# Threads over a shared memory

Threads run in any interleaving over one memory, which they read, write and add to.  Where a
thread's behaviour is one list of accesses (`Runs`), and no access of one thread is disturbed by
another's (`Compatible`), the interleaving does not matter: `Followed.trace` says what is done and
what is still to come in every state, and hence what memory holds when all threads are done.

* `Planned.complete` : when all threads are done each has made its accesses, in order; what was
  stored is there, and what was added adds up.
* `Planned.exists_complete` : every run ends, after a bounded number of steps, and none gets stuck
  before.
-/

namespace Roster

namespace Threads

/-- What a thread does next; after a read it goes on with the value. -/
inductive Next (A V τ : Type)
  | done
  | silent (t : τ)
  | load (a : A) (k : V → τ)
  | store (a : A) (v : V) (t : τ)
  /-- Add to a word and read what it held, in one access. -/
  | add (a : A) (v : V) (k : V → τ)
  | stuck

/-- An access to memory. -/
inductive Access (A V : Type)
  | load (a : A) (v : V)
  | store (a : A) (v : V)
  | add (a : A) (v : V)
  deriving DecidableEq

/-- The access stores into this word. -/
def Access.storesTo {A V : Type} [DecidableEq A] (a : A) : Access A V → Bool
  | .store b _ => b = a
  | .load _ _ | .add _ _ => false

/-- The access reads this word. -/
def Access.loadsFrom {A V : Type} [DecidableEq A] (a : A) : Access A V → Bool
  | .load b _ => b = a
  | .store _ _ | .add _ _ => false

/-- The memory, and where each thread is. -/
structure State (ι A V τ : Type) where
  memory : A → V
  threads : ι → τ

variable {ι A V τ : Type}

section System

variable [DecidableEq ι] [DecidableEq A] [AddCommMonoid V]

/-- One step of one thread.  A word `w` at `a` is read as `view a w`. -/
inductive Step (next : τ → Next A V τ) (view : A → V → V) :
    State ι A V τ → ι × Option (Access A V) → State ι A V τ → Prop
  | silent {s : State ι A V τ} {i : ι} {t : τ} (h : next (s.threads i) = .silent t) :
      Step next view s (i, none) ⟨s.memory, Function.update s.threads i t⟩
  | load {s : State ι A V τ} {i : ι} {a : A} {k : V → τ} (h : next (s.threads i) = .load a k) :
      Step next view s (i, some (.load a (view a (s.memory a))))
        ⟨s.memory, Function.update s.threads i (k (view a (s.memory a)))⟩
  | store {s : State ι A V τ} {i : ι} {a : A} {v : V} {t : τ}
      (h : next (s.threads i) = .store a v t) :
      Step next view s (i, some (.store a v))
        ⟨Function.update s.memory a v, Function.update s.threads i t⟩
  | add {s : State ι A V τ} {i : ι} {a : A} {v : V} {k : V → τ}
      (h : next (s.threads i) = .add a v k) :
      Step next view s (i, some (.add a v))
        ⟨Function.update s.memory a (view a (s.memory a) + v),
          Function.update s.threads i (k (view a (s.memory a)))⟩

/-- All interleavings of the threads. -/
def system (next : τ → Next A V τ) (view : A → V → V) :
    LTS (State ι A V τ) (ι × Option (Access A V)) where
  step := Step next view

end System

/-- All threads are done. -/
def Complete (next : τ → Next A V τ) (s : State ι A V τ) : Prop := ∀ i, next (s.threads i) = .done

/-- Left alone, the thread makes these accesses in `n` steps and is done; what it finds in a word it
adds to makes no difference. -/
inductive Runs (next : τ → Next A V τ) : τ → ℕ → List (Access A V) → Prop
  | done {t : τ} (h : next t = .done) : Runs next t 0 []
  | silent {t t' : τ} {n : ℕ} {accesses : List (Access A V)} (h : next t = .silent t')
      (hrest : Runs next t' n accesses) : Runs next t (n + 1) accesses
  | load {t : τ} {a : A} {v : V} {k : V → τ} {n : ℕ} {accesses : List (Access A V)}
      (h : next t = .load a k) (hrest : Runs next (k v) n accesses) :
      Runs next t (n + 1) (.load a v :: accesses)
  | store {t t' : τ} {a : A} {v : V} {n : ℕ} {accesses : List (Access A V)}
      (h : next t = .store a v t') (hrest : Runs next t' n accesses) :
      Runs next t (n + 1) (.store a v :: accesses)
  | add {t : τ} {a : A} {v : V} {k : V → τ} {n : ℕ} {accesses : List (Access A V)}
      (h : next t = .add a v k) (hrest : ∀ old, Runs next (k old) n accesses) :
      Runs next t (n + 1) (.add a v :: accesses)

/-- What these accesses add to a word. -/
def added [DecidableEq A] [AddCommMonoid V] (a : A) (accesses : List (Access A V)) : V :=
  (accesses.map fun access => match access with
    | .add b v => if b = a then v else 0
    | .load _ _ | .store _ _ => 0).sum

/-- The accesses of a thread among those performed. -/
def accessesOf [DecidableEq ι] (i : ι) (labels : List (ι × Option (Access A V))) :
    List (Access A V) :=
  labels.filterMap fun label => if label.1 = i then label.2 else none

/-- No thread disturbs another: what one reads none writes, what is stored in a word does not depend
on the order, and nothing else happens to a word that is added to. -/
structure Compatible (view : A → V → V) (memory : A → V) (plan : ι → List (Access A V)) : Prop where
  load : ∀ i a v, .load a v ∈ plan i → view a (memory a) = v ∧
    (∀ j w, .store a w ∉ plan j) ∧ ∀ j w, .add a w ∉ plan j
  store : ∀ i j a v w, .store a v ∈ plan i → .store a w ∈ plan j → v = w
  apart : ∀ i j a v w, .store a v ∈ plan i → .add a w ∉ plan j
  view : ∀ i a v, .add a v ∈ plan i → ∀ w, view a w = w

/-- Each thread is on its way through its plan, and memory holds what is done of it. -/
structure Followed [Fintype ι] [DecidableEq A] [AddCommMonoid V] (next : τ → Next A V τ)
    (memory : A → V) (plan rest : ι → List (Access A V)) (left : ι → ℕ) (s : State ι A V τ) :
    Prop where
  runs : ∀ i, Runs next (s.threads i) (left i) (rest i)
  suffix : ∀ i, ∀ access ∈ rest i, access ∈ plan i
  stored : ∀ i a v, .store a v ∈ plan i → s.memory a = v ∨ ∃ j, .store a v ∈ rest j
  sums : ∀ a, (∀ i v, .store a v ∉ plan i) →
    s.memory a + ∑ i, added a (rest i) = memory a + ∑ i, added a (plan i)

variable {next : τ → Next A V τ} {view : A → V → V} {t t' : τ} {n : ℕ} {a b : A} {v : V}
  {k : V → τ} {access : Access A V} {accesses : List (Access A V)}

/-! ### One thread -/

namespace Runs

theorem silent_inv (h : Runs next t n accesses) (ht : next t = .silent t') :
    ∃ m, n = m + 1 ∧ Runs next t' m accesses := by
  cases h with
  | silent h hrest =>
    obtain rfl := Next.silent.inj (h.symm.trans ht)
    exact ⟨_, rfl, hrest⟩
  | done h | load h _ | store h _ | add h _ => cases h.symm.trans ht

theorem load_inv (h : Runs next t n accesses) (ht : next t = .load a k) :
    ∃ m v rest, n = m + 1 ∧ accesses = .load a v :: rest ∧ Runs next (k v) m rest := by
  cases h with
  | load h hrest =>
    obtain ⟨rfl, rfl⟩ := Next.load.inj (h.symm.trans ht)
    exact ⟨_, _, _, rfl, rfl, hrest⟩
  | done h | silent h _ | store h _ | add h _ => cases h.symm.trans ht

theorem store_inv (h : Runs next t n accesses) (ht : next t = .store a v t') :
    ∃ m rest, n = m + 1 ∧ accesses = .store a v :: rest ∧ Runs next t' m rest := by
  cases h with
  | store h hrest =>
    obtain ⟨rfl, rfl, rfl⟩ := Next.store.inj (h.symm.trans ht)
    exact ⟨_, _, rfl, rfl, hrest⟩
  | done h | silent h _ | load h _ | add h _ => cases h.symm.trans ht

theorem add_inv (h : Runs next t n accesses) (ht : next t = .add a v k) :
    ∃ m rest, n = m + 1 ∧ accesses = .add a v :: rest ∧ ∀ old, Runs next (k old) m rest := by
  cases h with
  | add h hrest =>
    obtain ⟨rfl, rfl, rfl⟩ := Next.add.inj (h.symm.trans ht)
    exact ⟨_, _, rfl, rfl, hrest⟩
  | done h | silent h _ | load h _ | store h _ => cases h.symm.trans ht

/-- A thread that is done has no accesses left. -/
theorem done_inv (h : Runs next t n accesses) (ht : next t = .done) : accesses = [] := by
  cases h with
  | done => rfl
  | silent h _ | load h _ | store h _ | add h _ => cases h.symm.trans ht

/-- A thread is never stuck on its way. -/
theorem next_ne_stuck (h : Runs next t n accesses) : next t ≠ .stuck := by
  intro ht
  cases h with
  | done h | silent h _ | load h _ | store h _ | add h _ => cases h.symm.trans ht

end Runs

/-! ### All threads -/

section Updates

variable [DecidableEq ι] {plan rest : ι → List (Access A V)} {left : ι → ℕ}
  {s s' : State ι A V τ} {i : ι}

/-- What a step leaves of the plan: the thread that moves has its access behind it. -/
structure Advances [Fintype ι] (rest rest' : ι → List (Access A V)) (left left' : ι → ℕ)
    (label : ι × Option (Access A V)) : Prop where
  rest : ∀ j, rest j = accessesOf j [label] ++ rest' j
  left : ∑ j, left j = 1 + ∑ j, left' j

theorem sum_update_succ [Fintype ι] {m : ℕ} (hleft : left i = m + 1) :
    ∑ j, left j = 1 + ∑ j, Function.update left i m j := by
  rw [← Finset.add_sum_erase _ _ (Finset.mem_univ i),
    ← Finset.add_sum_erase Finset.univ (Function.update left i m) (Finset.mem_univ i),
    Function.update_self, hleft, Nat.add_comm m 1, Nat.add_assoc]
  congr 2
  exact Finset.sum_congr rfl fun j hj => by
    rw [Function.update_of_ne (Finset.ne_of_mem_erase hj)]

theorem advances_update [Fintype ι] {r : List (Access A V)} {m : ℕ} {access : Option (Access A V)}
    (hrest : rest i = access.toList ++ r) (hleft : left i = m + 1) :
    Advances rest (Function.update rest i r) left (Function.update left i m) (i, access) := by
  refine ⟨fun j => ?_, sum_update_succ hleft⟩
  by_cases hj : j = i
  · subst hj
    rw [Function.update_self, hrest, accessesOf]
    cases access <;> simp
  · rw [Function.update_of_ne hj]
    simp [accessesOf, Ne.symm hj]

/-- The threads after a step of `i`. -/
theorem runs_update (h : ∀ j, Runs next (s.threads j) (left j) (rest j)) {m : ℕ}
    {r : List (Access A V)} (hi : Runs next t m r) (j : ι) :
    Runs next (Function.update s.threads i t j) (Function.update left i m j)
      (Function.update rest i r j) := by
  by_cases hj : j = i
  · subst hj
    simpa using hi
  · simpa [Function.update_of_ne hj] using h j

theorem suffix_update (h : ∀ j, ∀ access ∈ rest j, access ∈ plan j) {r : List (Access A V)}
    (hr : ∀ access ∈ r, access ∈ rest i) (j : ι) :
    ∀ access ∈ Function.update rest i r j, access ∈ plan j := by
  by_cases hj : j = i
  · subst hj
    simpa using fun access hmem => h j access (hr access hmem)
  · simpa [Function.update_of_ne hj] using h j

/-- What is still to be stored after a step that stores something else. -/
theorem stored_update {r : List (Access A V)} (hrest : rest i = access :: r)
    (hne : access ≠ .store a v) (h : ∃ j, .store a v ∈ rest j) :
    ∃ j, .store a v ∈ Function.update rest i r j := by
  obtain ⟨j, hj⟩ := h
  refine ⟨j, ?_⟩
  by_cases hji : j = i
  · subst hji
    rw [hrest] at hj
    simpa [hne.symm] using hj
  · rwa [Function.update_of_ne hji]

end Updates

section Sums

variable [DecidableEq A] [AddCommMonoid V]

@[simp] theorem added_nil : added a ([] : List (Access A V)) = 0 := rfl

theorem added_cons (a : A) (access : Access A V) (accesses : List (Access A V)) :
    added a (access :: accesses) = added a [access] + added a accesses := by
  simp [added]

theorem added_append (a : A) (accesses more : List (Access A V)) :
    added a (accesses ++ more) = added a accesses + added a more := by
  simp [added]

/-- Nothing is added to a word by accesses none of which adds to it. -/
theorem added_eq_zero (h : ∀ v, .add a v ∉ accesses) : added a accesses = 0 := by
  induction accesses with
  | nil => rfl
  | cons access accesses ih =>
    have hrest : ∀ v, .add a v ∉ accesses := fun v hmem => h v (List.mem_cons_of_mem _ hmem)
    rw [added_cons, ih hrest, add_zero]
    cases access with
    | load b v | store b v => simp [added]
    | add b v =>
      by_cases hb : b = a
      · subst hb
        exact absurd List.mem_cons_self (h v)
      · simp [added, hb]

variable [Fintype ι] {memory : A → V} {plan rest : ι → List (Access A V)}
  {left : ι → ℕ} {s s' : State ι A V τ} {i : ι} {label : ι × Option (Access A V)}
  {labels : List (ι × Option (Access A V))}

/-- A word that is only read holds what it held. -/
theorem Followed.memory_eq (h : Followed next memory plan rest left s)
    (hstore : ∀ i v, .store a v ∉ plan i) (hadd : ∀ i v, .add a v ∉ plan i) :
    s.memory a = memory a := by
  have hsum := h.sums a hstore
  rwa [Finset.sum_eq_zero fun j _ => added_eq_zero fun v hmem => hadd j v (h.suffix j _ hmem),
    Finset.sum_eq_zero fun j _ => added_eq_zero (hadd j), add_zero, add_zero] at hsum

/-- Every thread at the start of its plan. -/
theorem Followed.start {threads : ι → τ}
    (hruns : ∀ i, Runs next (threads i) (left i) (plan i)) :
    Followed next memory plan plan left ⟨memory, threads⟩ :=
  ⟨hruns, fun _ _ => id, fun i _ _ hmem => .inr ⟨i, hmem⟩, fun _ _ => rfl⟩

variable [DecidableEq ι]

/-- One access less is left to add. -/
theorem sum_added_update {r : List (Access A V)} (hrest : rest i = access :: r) (a : A) :
    ∑ j, added a (rest j) =
      added a [access] + ∑ j, added a (Function.update rest i r j) := by
  rw [← Finset.add_sum_erase _ _ (Finset.mem_univ i),
    ← Finset.add_sum_erase Finset.univ (fun j => added a (Function.update rest i r j))
      (Finset.mem_univ i), Function.update_self, hrest, added_cons, add_assoc]
  congr 2
  refine Finset.sum_congr rfl fun j hj => ?_
  rw [Function.update_of_ne (Finset.ne_of_mem_erase hj)]

/-- A step of a thread keeps to the plan. -/
theorem Followed.step (h : Followed next memory plan rest left s)
    (hplan : Compatible view memory plan) (hstep : Step next view s label s') : ∃ rest' left',
      Followed next memory plan rest' left' s' ∧ Advances rest rest' left left' label := by
  cases hstep with
  | @silent i t hnext =>
    obtain ⟨m, hm, hruns⟩ := (h.runs i).silent_inv hnext
    refine ⟨Function.update rest i (rest i), _, ⟨runs_update h.runs hruns,
      suffix_update h.suffix fun _ => id, ?_, ?_⟩, advances_update rfl hm⟩
    · rw [Function.update_eq_self]
      exact h.stored
    · rw [Function.update_eq_self]
      exact h.sums
  | @load i a k hnext =>
    obtain ⟨m, v, r, hm, hrest, hruns⟩ := (h.runs i).load_inv hnext
    -- nobody writes or adds to the word that is read, so it holds what it held at the start
    have hmem : .load a v ∈ plan i := h.suffix i _ (hrest ▸ List.mem_cons_self)
    obtain ⟨hv, hstore, hadd⟩ := hplan.load i a v hmem
    rw [h.memory_eq hstore hadd, hv]
    refine ⟨Function.update rest i r, _, ⟨runs_update h.runs hruns, suffix_update h.suffix ?_,
      ?_, ?_⟩, advances_update hrest hm⟩
    · exact fun access hmem => hrest ▸ List.mem_cons_of_mem _ hmem
    · exact fun j b w hj => (h.stored j b w hj).imp_right (stored_update hrest (by simp))
    · intro b hb
      have hsum := h.sums b hb
      rwa [sum_added_update hrest, added_eq_zero (by simp), zero_add] at hsum
  | @store i a v t hnext =>
    obtain ⟨m, r, hm, hrest, hruns⟩ := (h.runs i).store_inv hnext
    have hmem : .store a v ∈ plan i := h.suffix i _ (hrest ▸ List.mem_cons_self)
    refine ⟨Function.update rest i r, _, ⟨runs_update h.runs hruns, suffix_update h.suffix ?_,
      fun j b w hj => ?_, fun b hb => ?_⟩, advances_update hrest hm⟩
    · exact fun access hmem => hrest ▸ List.mem_cons_of_mem _ hmem
    -- whoever stores in this word stores the same value
    · by_cases hba : b = a
      · subst hba
        rw [hplan.store j i b w v hj hmem]
        exact .inl (Function.update_self ..)
      · dsimp only
        rw [Function.update_of_ne hba]
        refine (h.stored j b w hj).imp_right (stored_update hrest fun heq => hba ?_)
        exact (Access.store.inj heq).1.symm
    · have hba : b ≠ a := fun heq => hb i v (heq ▸ hmem)
      have hsum := h.sums b hb
      dsimp only
      rw [Function.update_of_ne hba]
      rwa [sum_added_update hrest, added_eq_zero (by simp), zero_add] at hsum
  | @add i a v k hnext =>
    obtain ⟨m, r, hm, hrest, hruns⟩ := (h.runs i).add_inv hnext
    have hmem : .add a v ∈ plan i := h.suffix i _ (hrest ▸ List.mem_cons_self)
    refine ⟨Function.update rest i r, _, ⟨runs_update h.runs (hruns _), suffix_update h.suffix ?_,
      fun j b w hj => ?_, fun b hb => ?_⟩, advances_update hrest hm⟩
    · exact fun access hmem => hrest ▸ List.mem_cons_of_mem _ hmem
    -- a word that is added to is never stored in
    · have hba : b ≠ a := fun heq => hplan.apart j i a w v (heq ▸ hj) hmem
      dsimp only
      rw [Function.update_of_ne hba]
      exact (h.stored j b w hj).imp_right (stored_update hrest (by simp))
    · have hsum := h.sums b hb
      rw [sum_added_update hrest] at hsum
      dsimp only
      by_cases hba : b = a
      · subst hba
        rw [Function.update_self, hplan.view i b v hmem, add_assoc]
        simpa [added] using hsum
      · rw [Function.update_of_ne hba]
        rwa [added_eq_zero (by simpa using fun heq => absurd heq hba), zero_add] at hsum

/-- **What a run has done**: of each thread's plan a first part, and memory holds what that part
leaves there. -/
theorem Followed.trace (h : Followed next memory plan rest left s)
    (hplan : Compatible view memory plan) (htrace : (system next view).Trace s labels s') :
    ∃ rest' left', Followed next memory plan rest' left' s' ∧
      (∀ i, rest i = accessesOf i labels ++ rest' i) ∧
        ∑ i, left i = labels.length + ∑ i, left' i := by
  induction htrace generalizing rest left with
  | nil s => exact ⟨rest, left, h, fun i => rfl, by simp⟩
  | @cons s mid s' label labels hstep _ ih =>
    obtain ⟨rest₁, left₁, hmid, hadvances⟩ := h.step hplan hstep
    obtain ⟨rest₂, left₂, hlast, hrest, hleft⟩ := ih hmid
    refine ⟨rest₂, left₂, hlast, fun i => ?_, ?_⟩
    · have hcons : accessesOf i (label :: labels) =
          accessesOf i [label] ++ accessesOf i labels := by
        rw [accessesOf, accessesOf, accessesOf, ← List.filterMap_append]
        rfl
      rw [hadvances.rest i, hrest i, hcons, List.append_assoc]
    · rw [hadvances.left, hleft, List.length_cons]
      omega

/-- A thread that is not done can move. -/
theorem Followed.progress (h : Followed next memory plan rest left s) (i : ι)
    (hdone : next (s.threads i) ≠ .done) : ∃ label s', Step next view s label s' := by
  cases hnext : next (s.threads i) with
  | done => exact absurd hnext hdone
  | silent t => exact ⟨_, _, .silent hnext⟩
  | load a k => exact ⟨_, _, .load hnext⟩
  | store a v t => exact ⟨_, _, .store hnext⟩
  | add a v k => exact ⟨_, _, .add hnext⟩
  | stuck => exact absurd hnext (h.runs i).next_ne_stuck

/-- Every run can be continued until all threads are done. -/
theorem Followed.exists_complete (h : Followed next memory plan rest left s)
    (hplan : Compatible view memory plan) :
    ∃ labels s', (system next view).Trace s labels s' ∧ Complete next s' := by
  induction hn : ∑ i, left i using Nat.strong_induction_on generalizing rest left s with
  | _ n ih =>
    by_cases hcomplete : Complete next s
    · exact ⟨[], s, .nil s, hcomplete⟩
    · obtain ⟨i, hi⟩ := not_forall.1 hcomplete
      obtain ⟨label, mid, hstep⟩ : ∃ label mid, Step next view s label mid := h.progress i hi
      obtain ⟨rest', left', hmid, hadvances⟩ := h.step hplan hstep
      have hlt := hadvances.left
      obtain ⟨labels, s', htrace, hdone⟩ := ih _ (by omega) hmid rfl
      exact ⟨label :: labels, s', .cons hstep htrace, hdone⟩

/-- Threads that have their plans to follow. -/
structure Planned (next : τ → Next A V τ) (view : A → V → V) (memory : A → V) (threads : ι → τ)
    (plan : ι → List (Access A V)) : Prop where
  runs : ∀ i, ∃ n, Runs next (threads i) n (plan i)
  compatible : Compatible view memory plan

namespace Planned

variable {threads : ι → τ}

/-- Every run comes to an end, and nothing keeps it from doing so. -/
theorem exists_complete (h : Planned next view memory threads plan) :
    ∃ bound, ∀ labels s, (system next view).Trace ⟨memory, threads⟩ labels s →
      labels.length ≤ bound ∧
        ∃ labels' s', (system next view).Trace s labels' s' ∧ Complete next s' := by
  choose left hruns using h.runs
  refine ⟨∑ i, left i, fun labels s htrace => ?_⟩
  obtain ⟨rest, left', hfollowed, -, hleft⟩ := (Followed.start hruns).trace h.compatible htrace
  exact ⟨by omega, hfollowed.exists_complete h.compatible⟩

/-- When all threads are done, each has followed its plan, and memory holds what all of them leave
there. -/
theorem complete (h : Planned next view memory threads plan)
    (htrace : (system next view).Trace ⟨memory, threads⟩ labels s) (hdone : Complete next s) :
    (∀ i, accessesOf i labels = plan i) ∧
      (∀ i a v, .store a v ∈ plan i → s.memory a = v) ∧
      ∀ a, (∀ i v, .store a v ∉ plan i) → s.memory a = memory a + ∑ i, added a (plan i) := by
  choose left hruns using h.runs
  obtain ⟨rest, left', hfollowed, hrest, -⟩ := (Followed.start hruns).trace h.compatible htrace
  have hnil : ∀ i, rest i = [] := fun i => (hfollowed.runs i).done_inv (hdone i)
  refine ⟨fun i => ?_, fun i a v hmem => ?_, fun a ha => ?_⟩
  · rw [hrest i, hnil i, List.append_nil]
  · refine (hfollowed.stored i a v hmem).resolve_right ?_
    rintro ⟨j, hj⟩
    rw [hnil j] at hj
    cases hj
  · have hsum := hfollowed.sums a ha
    rwa [Finset.sum_eq_zero fun i _ => by rw [hnil i, added_nil], add_zero] at hsum

end Planned

end Sums

/-- The accesses performed are those of the single threads. -/
theorem countP_labels [Fintype ι] [DecidableEq ι] (p : Access A V → Bool)
    (labels : List (ι × Option (Access A V))) :
    (labels.countP fun label => label.2.any p) = ∑ i, (accessesOf i labels).countP p := by
  induction labels with
  | nil => simp [accessesOf]
  | cons label labels ih =>
    obtain ⟨i, access⟩ := label
    have hcons : ∀ j, accessesOf j ((i, access) :: labels) =
        (if i = j then access.toList else []) ++ accessesOf j labels := by
      intro j
      by_cases hj : i = j
      · cases access <;> simp [accessesOf, hj]
      · simp [accessesOf, hj]
    have hfirst : (∑ j, (if i = j then access.toList else []).countP p) =
        if access.any p then 1 else 0 := by
      rw [Finset.sum_eq_single i (fun j _ hj => by simp [Ne.symm hj]) (by simp)]
      cases access <;> simp [List.countP_cons]
    simp only [hcons, List.countP_append, Finset.sum_add_distrib, hfirst, List.countP_cons, ih]
    omega

end Threads

end Roster
