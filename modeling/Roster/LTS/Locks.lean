import Roster.LTS.Basic
import Mathlib.Order.WellFounded

/-!
# Tasks that take locks

A task is given by its `Code`: where it takes a lock and for how long, where it waits for something
that is not a lock, and where its way depends on data.  Guards are scoped: a lock is taken for the
length of a `hold`.  Any number of tasks run the code of a family of programs and take their steps
in any order (`Locks.system`); a task takes a lock when nobody holds it, and may be dropped at any
point, which releases what it holds.

* `Code.Nests under` : wherever a task takes a lock, it is one that may be taken under each lock the
  task holds.
* `Locks.not_deadlocked` : if `under` is well founded, no reachable state has tasks that each wait
  for a lock one of them holds.
* `Locks.someone_moves` : then, as long as a task has not ended, some task can take a step.
* `Locks.brief` : a lock that is never held while the task waits for something else is held by tasks
  that wait, if at all, for such locks only.
-/

namespace Roster

/-- What a task does, as far as its locks go. -/
inductive Code (L : Type*)
  | done
  /-- Wait for something that is not a lock. -/
  | await
  /-- Take the lock for as long as `body` runs. -/
  | hold (lock : L) (body : Code L)
  /-- `body` runs, and the lock is held. -/
  | held (lock : L) (body : Code L)
  | seq (first rest : Code L)
  /-- The way depends on data. -/
  | choose (left right : Code L)
  /-- Any number of times. -/
  | loop (body : Code L)

namespace Code

variable {L : Type*}

/-- Take the lock for the length of one expression. -/
def lock (l : L) : Code L := .hold l .done

/-- Only on some ways. -/
def maybe (c : Code L) : Code L := .choose c .done

/-- One after the other. -/
def all : List (Code L) → Code L
  | [] => .done
  | c :: cs => .seq c (all cs)

/-- For each of `0 … n-1`. -/
def forEach (n : ℕ) (c : ℕ → Code L) : Code L := all ((List.range n).map c)

/-- Everything is done. -/
def ended : Code L → Bool
  | .done => true
  | _ => false

/-- The locks that are held now, the last one taken at the end. -/
def locks : Code L → List L
  | .held l body => l :: body.locks
  | .seq first _ => first.locks
  | _ => []

/-- The lock to take next. -/
def waits : Code L → Option L
  | .hold l _ => some l
  | .held _ body => body.waits
  | .seq first _ => first.waits
  | _ => none

/-- It waits for something that is not a lock. -/
def awaits : Code L → Bool
  | .await => true
  | .held _ body => body.awaits
  | .seq first _ => first.awaits
  | _ => false

/-- The next step: the lock it takes, if any, and what is left.  `way` decides where the way depends
on data, and whether a loop goes on. -/
def next (way : Bool) : Code L → Option (Option L × Code L)
  | .done => none
  | .await => some (none, .done)
  | .hold l body => some (some l, .held l body)
  | .held l body =>
    match body.next way with
    | some (taken, body) => some (taken, .held l body)
    | none => some (none, .done)
  | .seq first rest =>
    match first.next way with
    | some (taken, first) => some (taken, .seq first rest)
    | none => some (none, rest)
  | .choose left right => some (none, if way then left else right)
  | .loop body => some (none, if way then .seq body (.loop body) else .done)

/-- Every lock is one that may be taken under the locks in `above` and those held since, and nothing
but a lock is waited for under a brief lock. -/
def Nests (under : L → L → Prop) (brief : L → Prop) (above : List L) : Code L → Prop
  | .done => True
  | .await => ∀ h ∈ above, ¬ brief h
  | .hold l body => (∀ h ∈ above, under h l) ∧ body.Nests under brief (l :: above)
  | .held l body => (∀ h ∈ above, under h l) ∧ body.Nests under brief (l :: above)
  | .seq first rest => first.Nests under brief above ∧ rest.Nests under brief above
  | .choose left right => left.Nests under brief above ∧ right.Nests under brief above
  | .loop body => body.Nests under brief above

section Nests

variable {under : L → L → Prop} {brief : L → Prop} {above : List L} {c c' : Code L}

@[simp] theorem nests_done : (done : Code L).Nests under brief above := trivial

@[simp] theorem nests_await :
    (await : Code L).Nests under brief above ↔ ∀ h ∈ above, ¬ brief h := Iff.rfl

@[simp] theorem nests_hold {l : L} : (hold l c).Nests under brief above ↔
    (∀ h ∈ above, under h l) ∧ c.Nests under brief (l :: above) := Iff.rfl

@[simp] theorem nests_seq : (seq c c').Nests under brief above ↔
    c.Nests under brief above ∧ c'.Nests under brief above := Iff.rfl

@[simp] theorem nests_choose : (choose c c').Nests under brief above ↔
    c.Nests under brief above ∧ c'.Nests under brief above := Iff.rfl

@[simp] theorem nests_loop :
    (loop c).Nests under brief above ↔ c.Nests under brief above := Iff.rfl

@[simp] theorem nests_lock {l : L} :
    (lock l).Nests under brief above ↔ ∀ h ∈ above, under h l := by simp [lock]

@[simp] theorem nests_maybe :
    (maybe c).Nests under brief above ↔ c.Nests under brief above := by simp [maybe]

@[simp] theorem nests_ite {p : Prop} [Decidable p] :
    (if p then c else c').Nests under brief above ↔
      (p → c.Nests under brief above) ∧ (¬ p → c'.Nests under brief above) := by
  split <;> simp [*]

@[simp] theorem nests_all {cs : List (Code L)} :
    (all cs).Nests under brief above ↔ ∀ c ∈ cs, c.Nests under brief above := by
  induction cs with
  | nil => simp [all]
  | cons c cs ih => simp [all, ih]

@[simp] theorem nests_forEach {n : ℕ} {c : ℕ → Code L} :
    (forEach n c).Nests under brief above ↔ ∀ i < n, (c i).Nests under brief above := by
  simp [forEach]

/-- A step keeps the nesting. -/
theorem Nests.next {way : Bool} {taken : Option L} (h : c.Nests under brief above)
    (hnext : c.next way = some (taken, c')) : c'.Nests under brief above := by
  induction c generalizing above taken c' with
  | done => cases hnext
  | await => cases hnext; trivial
  | hold l body => cases hnext; exact h
  | held l body ih =>
    rw [Code.next] at hnext
    split at hnext
    · next taken' body' hbody =>
      cases hnext
      exact ⟨h.1, ih h.2 hbody⟩
    · cases hnext; trivial
  | seq first rest ih =>
    rw [Code.next] at hnext
    split at hnext
    · next taken' first' hfirst =>
      cases hnext
      exact ⟨ih h.1 hfirst, h.2⟩
    · cases hnext; exact h.2
  | choose left right =>
    cases hnext
    cases way
    · exact h.2
    · exact h.1
  | loop body =>
    cases hnext
    cases way
    · trivial
    · exact ⟨h, h⟩

/-- What a task waits for may be taken under every lock it holds. -/
theorem Nests.waits {l : L} (h : c.Nests under brief above) (hwaits : c.waits = some l) :
    ∀ k ∈ above ++ c.locks, under k l := by
  induction c generalizing above with
  | hold k body =>
    cases hwaits
    simpa [locks] using h.1
  | held k body ih =>
    intro m hm
    refine ih h.2 hwaits m ?_
    simp only [locks, List.mem_append, List.mem_cons] at hm ⊢
    tauto
  | seq first rest ih => exact ih h.1 hwaits
  | done => cases hwaits
  | await => cases hwaits
  | choose left right => cases hwaits
  | loop body => cases hwaits

/-- A task that waits for something else holds no brief lock. -/
theorem Nests.awaits (h : c.Nests under brief above) (hawaits : c.awaits = true) :
    ∀ k ∈ above ++ c.locks, ¬ brief k := by
  induction c generalizing above with
  | await => simpa [locks] using h
  | held k body ih =>
    intro m hm
    refine ih h.2 hawaits m ?_
    simp only [locks, List.mem_append, List.mem_cons] at hm ⊢
    tauto
  | seq first rest ih => exact ih h.1 hawaits
  | done => cases hawaits
  | hold k body => cases hawaits
  | choose left right => cases hawaits
  | loop body => cases hawaits

end Nests

/-- A task that has not ended has a next step, and it takes the lock the task waits for. -/
theorem next_eq (way : Bool) {c : Code L} (h : c.ended = false) :
    ∃ c', c.next way = some (c.waits, c') := by
  induction c with
  | done => cases h
  | await => exact ⟨_, rfl⟩
  | hold l body => exact ⟨_, rfl⟩
  | held l body ih =>
    cases hended : body.ended with
    | true =>
      cases body <;> cases hended
      exact ⟨_, rfl⟩
    | false =>
      obtain ⟨body', hbody⟩ := ih hended
      exact ⟨.held l body', by rw [next, hbody]; rfl⟩
  | seq first rest ih =>
    cases hended : first.ended with
    | true =>
      cases first <;> cases hended
      exact ⟨_, rfl⟩
    | false =>
      obtain ⟨first', hfirst⟩ := ih hended
      exact ⟨.seq first' rest, by rw [next, hfirst]; rfl⟩
  | choose left right => exact ⟨_, rfl⟩
  | loop body => exact ⟨_, rfl⟩

end Code

namespace Locks

variable {L T : Type*} [DecidableEq L]

/-- What can happen next. -/
inductive Event (T : Type*)
  /-- A task starts. -/
  | spawn (program : T)
  /-- A task takes a step. -/
  | step (task : ℕ) (way : Bool)
  /-- A task is dropped, and its guards with it. -/
  | drop (task : ℕ)

/-- Nobody holds the lock. -/
def Free (tasks : List (Code L)) (l : L) : Prop := ∀ c ∈ tasks, l ∉ c.locks

instance (tasks : List (Code L)) (l : L) : Decidable (Free tasks l) :=
  inferInstanceAs (Decidable (∀ c ∈ tasks, l ∉ c.locks))

/-- Perform an event; a step that takes a lock needs it free. -/
def perform (code : T → Code L) (tasks : List (Code L)) : Event T → Option (List (Code L))
  | .spawn program => some (tasks ++ [code program])
  | .step task way => do
    let c ← tasks[task]?
    let (taken, c') ← c.next way
    if ∀ l ∈ taken, Free tasks l then some (tasks.set task c') else none
  | .drop task => some (tasks.set task .done)

/-- Any number of tasks that run these programs, in any order. -/
def system (code : T → Code L) : LTS (List (Code L)) (Event T) := .ofPerform (perform code)

/-- These tasks each wait for a lock that one of them holds. -/
structure Deadlocked (tasks : List (Code L)) (among : Set ℕ) : Prop where
  nonempty : among.Nonempty
  blocked : ∀ i ∈ among, ∃ c l, tasks[i]? = some c ∧ c.waits = some l ∧
    ∃ j ∈ among, ∃ d, tasks[j]? = some d ∧ l ∈ d.locks

variable {code : T → Code L} {under : L → L → Prop} {brief : L → Prop} {tasks : List (Code L)}

/-- Every task nests its locks, at any time. -/
theorem nests_of_reach (hcode : ∀ t, (code t).Nests under brief [])
    (h : (system code).Reach [] tasks) : ∀ c ∈ tasks, c.Nests under brief [] := by
  refine h.invariant (I := fun tasks => ∀ c ∈ tasks, c.Nests under brief []) (by simp)
    fun tasks event tasks' _ ih hstep => ?_
  cases event with
  | spawn program =>
    cases hstep
    exact List.forall_mem_append.2 ⟨ih, List.forall_mem_singleton.2 (hcode program)⟩
  | step task way =>
    obtain ⟨c, hc, hstep⟩ := Option.bind_eq_some_iff.1 hstep
    obtain ⟨⟨taken, c'⟩, hnext, hend⟩ := Option.bind_eq_some_iff.1 hstep
    obtain ⟨-, rfl⟩ : (∀ l ∈ taken, Free tasks l) ∧ tasks.set task c' = tasks' := by
      simpa using hend
    intro d hd
    rcases List.mem_or_eq_of_mem_set hd with hd | rfl
    · exact ih d hd
    · exact (ih c (List.mem_of_getElem? hc)).next hnext
  | drop task =>
    cases hstep
    intro d hd
    rcases List.mem_or_eq_of_mem_set hd with hd | rfl
    · exact ih d hd
    · trivial

/-- **A well-founded order of the locks rules out deadlock.** -/
theorem not_deadlocked (hwf : WellFounded fun l' l => under l l')
    (hcode : ∀ t, (code t).Nests under brief []) (h : (system code).Reach [] tasks)
    (among : Set ℕ) : ¬ Deadlocked tasks among := by
  rintro ⟨⟨i₀, hi₀⟩, hblocked⟩
  -- the locks that are waited for
  let waited : Set L := {l | ∃ i ∈ among, ∃ c, tasks[i]? = some c ∧ c.waits = some l}
  have hne : waited.Nonempty := by
    obtain ⟨c, l, hc, hl, -⟩ := hblocked i₀ hi₀
    exact ⟨l, i₀, hi₀, c, hc, hl⟩
  obtain ⟨l, ⟨i, hi, c, hc, hl⟩, hlast⟩ := hwf.has_min waited hne
  -- the holder of the last of them waits for one that comes later
  obtain ⟨c', l₁, hc', hl₁, j, hj, d, hd, hheld⟩ := hblocked i hi
  obtain rfl := Option.some.inj (hc.symm.trans hc')
  obtain rfl := Option.some.inj (hl.symm.trans hl₁)
  obtain ⟨d', l', hd', hl', -⟩ := hblocked j hj
  obtain rfl := Option.some.inj (hd.symm.trans hd')
  have hnests := nests_of_reach hcode h d (List.mem_of_getElem? hd)
  exact hlast l' ⟨j, hj, d, hd, hl'⟩ (hnests.waits hl' l (by simpa using hheld))

/-- As long as a task has not ended, some task can take a step. -/
theorem someone_moves (hwf : WellFounded fun l' l => under l l')
    (hcode : ∀ t, (code t).Nests under brief []) (h : (system code).Reach [] tasks)
    (hsome : ∃ c ∈ tasks, c.ended = false) (way : Bool) :
    ∃ i tasks', perform code tasks (.step i way) = some tasks' := by
  by_contra hstuck
  push Not at hstuck
  -- then the tasks that have not ended wait for one another
  refine not_deadlocked hwf hcode h
    {i | ∃ c, tasks[i]? = some c ∧ c.ended = false} ⟨?_, ?_⟩
  · obtain ⟨c, hc, hended⟩ := hsome
    obtain ⟨i, hi⟩ := List.mem_iff_getElem?.1 hc
    exact ⟨i, c, hi, hended⟩
  · rintro i ⟨c, hc, hended⟩
    obtain ⟨c', hnext⟩ := c.next_eq way hended
    have hblocked : ¬ ∀ l ∈ c.waits, Free tasks l := fun hfree =>
      hstuck i (tasks.set i c') (by simp [perform, hc, hnext]; exact hfree)
    push Not at hblocked
    obtain ⟨l, hl, hnot⟩ := hblocked
    unfold Free at hnot
    push Not at hnot
    obtain ⟨d, hd, hheld⟩ := hnot
    obtain ⟨j, hj⟩ := List.mem_iff_getElem?.1 hd
    have hrunning : d.ended = false := by
      cases d <;> first | rfl | cases hheld
    exact ⟨c, l, hc, hl, j, ⟨d, hj, hrunning⟩, d, hj, hheld⟩

/-- A task that holds a brief lock waits for nothing but a brief lock. -/
theorem brief_holder (hbrief : ∀ l l', under l l' → brief l → brief l')
    (hcode : ∀ t, (code t).Nests under brief []) (h : (system code).Reach [] tasks) {c : Code L}
    (hc : c ∈ tasks) {l : L} (hheld : l ∈ c.locks) (hl : brief l) :
    c.awaits = false ∧ ∀ l' ∈ c.waits, brief l' := by
  have hnests := nests_of_reach hcode h c hc
  have hmem : l ∈ [] ++ c.locks := by simpa using hheld
  refine ⟨?_, fun l' hl' => hbrief l l' (hnests.waits hl' l hmem) hl⟩
  by_contra hawaits
  exact hnests.awaits (by simpa using hawaits) l hmem hl

end Locks

end Roster
