import Mathlib.Data.List.Chain
import Mathlib.Logic.Function.Basic

/-!
# A log that follows the records of a keyed store

Records change in sections.  A section leaves the keys of what it changed, and a flush then logs
these records one by one, each with the value it has then; the next section starts when all are
logged.  Records may be added at any moment.

## Main definitions

* `told log k` : the values that the log tells of `k`, oldest first.
* `replay base log` : the table a reader has who starts from `base` and takes in the whole log.
* `Tracks R base value toWrite log` : the log is right about every record, but for those in
  `toWrite`, which are one step of `R` ahead of it.
* `Grounded requires base log` : every entry was logged after what it requires.
-/

namespace Roster

namespace ChangeLog

variable {κ σ : Type*} [DecidableEq κ]

/-- The values that the log tells of `k`, oldest first. -/
def told (log : List (κ × σ)) (k : κ) : List σ :=
  (log.filter fun entry => decide (entry.1 = k)).map Prod.snd

/-- The table of a reader who starts from `base` and takes in the log. -/
def replay (base : κ → σ) (log : List (κ × σ)) : κ → σ :=
  log.foldl (fun table entry => Function.update table entry.1 entry.2) base

variable {R : σ → σ → Prop} {base : κ → σ} {log : List (κ × σ)} {k k' : κ} {v : σ}

@[simp] theorem told_nil : told ([] : List (κ × σ)) k = [] := rfl

theorem told_append_self : told (log ++ [(k, v)]) k = told log k ++ [v] := by simp [told]

theorem told_append_of_ne (h : k' ≠ k) : told (log ++ [(k', v)]) k = told log k := by
  simp [told, h]

/-- The log tells nothing of a key it has no entry for. -/
theorem told_eq_nil (h : ∀ entry ∈ log, entry.1 ≠ k) : told log k = [] := by
  rw [told, List.map_eq_nil_iff, List.filter_eq_nil_iff]
  simpa using h

theorem replay_append : replay base (log ++ [(k, v)]) = Function.update (replay base log) k v := by
  simp [replay]

theorem replay_append_self : replay base (log ++ [(k, v)]) k = v := by
  rw [replay_append, Function.update_self]

theorem replay_append_of_ne (h : k' ≠ k) :
    replay base (log ++ [(k', v)]) k = replay base log k := by
  rw [replay_append, Function.update_of_ne h.symm]

/-- A reader ends up with the last value it was told. -/
theorem replay_eq_getLast (base : κ → σ) (log : List (κ × σ)) (k : κ) :
    replay base log k = (told log k).getLastD (base k) := by
  induction log using List.reverseRecOn with
  | nil => rfl
  | append_singleton log entry ih =>
    obtain ⟨k', v⟩ := entry
    by_cases h : k' = k
    · subst h
      rw [replay_append_self, told_append_self]
      simp
    · rw [replay_append_of_ne h, told_append_of_ne h, ih]

/-- A reader knows nothing new of a key the log has no entry for. -/
theorem replay_of_told_nil (h : told log k = []) : replay base log k = base k := by
  rw [replay_eq_getLast, h, List.getLastD_nil]

/-- A reader has the base value of a key, or one that the log has for it. -/
theorem replay_mem (base : κ → σ) (log : List (κ × σ)) (k : κ) :
    replay base log k = base k ∨ (k, replay base log k) ∈ log := by
  induction log using List.reverseRecOn with
  | nil => exact .inl rfl
  | append_singleton log entry ih =>
    obtain ⟨k', v⟩ := entry
    by_cases h : k' = k
    · subst h
      rw [replay_append_self]
      exact .inr (List.mem_append_right _ List.mem_cons_self)
    · rw [replay_append_of_ne h]
      exact ih.imp_right (List.mem_append_left _)

/-- One more value in a chain. -/
theorem chain_append (h : (base k :: told log k).IsChain R) (hv : R (replay base log k) v) :
    (base k :: told (log ++ [(k, v)]) k).IsChain R := by
  rw [told_append_self, ← List.cons_append]
  refine h.append (List.isChain_singleton v) fun x hx y hy => ?_
  obtain rfl : y = v := by simpa using hy.symm
  have hlast : x = replay base log k := by
    rw [replay_eq_getLast, List.getLastD_eq_getLast?]
    rw [List.getLast?_cons] at hx
    simpa [eq_comm] using hx
  exact hlast ▸ hv

/-! ### The log follows the records -/

/-- The log is right about every record, but for those that are still to be logged, which are one
step of `R` ahead of it. -/
structure Tracks (R : σ → σ → Prop) (base : κ → σ) (value : κ → Option σ) (toWrite : List κ)
    (log : List (κ × σ)) : Prop where
  nodup : toWrite.Nodup
  present : ∀ k ∈ toWrite, ∃ v, value k = some v
  known : ∀ entry ∈ log, ∃ v, value entry.1 = some v
  chain : ∀ k, (base k :: told log k).IsChain R
  upToDate : ∀ k v, value k = some v → k ∉ toWrite → replay base log k = v
  behind : ∀ k v, value k = some v → k ∈ toWrite → R (replay base log k) v

namespace Tracks

variable {value value' : κ → Option σ} {toWrite toWrite' : List κ}

theorem told_of_none (h : Tracks R base value toWrite log) (hk : value k = none) :
    told log k = [] := by
  refine told_eq_nil fun entry hmem heq => ?_
  obtain ⟨v, hv⟩ := h.known entry hmem
  rw [heq, hk] at hv
  cases hv

/-- An empty log follows the records it starts from. -/
theorem start (hbase : ∀ k v, value k = some v → base k = v) :
    Tracks R base value [] ([] : List (κ × σ)) where
  nodup := List.nodup_nil
  present _ h := by cases h
  known _ h := by cases h
  chain k := List.isChain_singleton _
  upToDate k v hv _ := hbase k v hv
  behind _ _ _ h := by cases h

/-- With nothing left to log, a reader has the table. -/
theorem replay_eq (h : Tracks R base value [] log) :
    replay base log = fun k => (value k).getD (base k) := by
  funext k
  cases hk : value k with
  | none => exact replay_of_told_nil (h.told_of_none hk)
  | some v => exact h.upToDate k v hk List.not_mem_nil

/-- A section changes the records it leaves to be logged. -/
theorem change (h : Tracks R base value [] log) (hnodup : toWrite'.Nodup)
    (hstep : ∀ k ∈ toWrite', ∃ v v', value k = some v ∧ value' k = some v' ∧ R v v')
    (hkept : ∀ k, k ∉ toWrite' → value' k = value k) : Tracks R base value' toWrite' log where
  nodup := hnodup
  present k hk :=
    have ⟨_, v', _, hv', _⟩ := hstep k hk
    ⟨v', hv'⟩
  known entry hmem := by
    by_cases hk : entry.1 ∈ toWrite'
    · obtain ⟨_, v', -, hv', -⟩ := hstep _ hk
      exact ⟨v', hv'⟩
    · rw [hkept _ hk]
      exact h.known entry hmem
  chain := h.chain
  upToDate k v hv hk := h.upToDate k v (hkept k hk ▸ hv) List.not_mem_nil
  behind k v' hv' hk := by
    obtain ⟨v, v'', hv, hv'', hR⟩ := hstep k hk
    obtain rfl := Option.some.inj (hv''.symm.trans hv')
    rwa [h.upToDate k v hv List.not_mem_nil]

/-- New records are as the reader takes them to be. -/
theorem extend (h : Tracks R base value toWrite log)
    (hkept : ∀ k v, value k = some v → value' k = some v)
    (hnew : ∀ k v, value k = none → value' k = some v → base k = v) :
    Tracks R base value' toWrite log where
  nodup := h.nodup
  present k hk :=
    have ⟨v, hv⟩ := h.present k hk
    ⟨v, hkept k v hv⟩
  known entry hmem :=
    have ⟨v, hv⟩ := h.known entry hmem
    ⟨v, hkept _ v hv⟩
  chain := h.chain
  upToDate k v' hv' hk := by
    cases hv : value k with
    | none => exact (replay_of_told_nil (h.told_of_none hv)).trans (hnew k v' hv hv')
    | some v =>
      obtain rfl := Option.some.inj ((hkept k v hv).symm.trans hv')
      exact h.upToDate k _ hv hk
  behind k v' hv' hk := by
    obtain ⟨v, hv⟩ := h.present k hk
    obtain rfl := Option.some.inj ((hkept k v hv).symm.trans hv')
    exact h.behind k _ hv hk

/-- The flush logs the next record. -/
theorem flush (h : Tracks R base value (k :: toWrite) log) (hk : value k = some v) :
    Tracks R base value toWrite (log ++ [(k, v)]) where
  nodup := (List.nodup_cons.1 h.nodup).2
  present k' hk' := h.present k' (List.mem_cons_of_mem k hk')
  known entry hmem := by
    rcases List.mem_append.1 hmem with hmem | hmem
    · exact h.known entry hmem
    · rw [List.mem_singleton.1 hmem]
      exact ⟨v, hk⟩
  chain k' := by
    by_cases heq : k = k'
    · subst heq
      exact chain_append (h.chain k) (h.behind k v hk List.mem_cons_self)
    · rw [told_append_of_ne heq]
      exact h.chain k'
  upToDate k' v' hv' hnot := by
    by_cases heq : k = k'
    · subst heq
      rw [replay_append_self]
      exact Option.some.inj (hk.symm.trans hv')
    · rw [replay_append_of_ne heq]
      exact h.upToDate k' v' hv' fun hmem => (List.mem_cons.1 hmem).elim (fun h => heq h.symm) hnot
  behind k' v' hv' hmem := by
    have hne : k ≠ k' := fun heq => (List.nodup_cons.1 h.nodup).1 (heq ▸ hmem)
    rw [replay_append_of_ne hne]
    exact h.behind k' v' hv' (List.mem_cons_of_mem k hmem)

end Tracks

/-! ### What an entry requires -/

/-- Every entry was logged when the table of a reader was as the entry requires. -/
def Grounded (requires : κ → σ → (κ → σ) → Prop) (base : κ → σ) (log : List (κ × σ)) : Prop :=
  ∀ before k v after, log = before ++ (k, v) :: after → requires k v (replay base before)

/-- The entries of the log are grounded, and those that are still to come are if they come now. -/
structure Justified (requires : κ → σ → (κ → σ) → Prop) (base : κ → σ) (value : κ → Option σ)
    (toWrite : List κ) (log : List (κ × σ)) : Prop where
  logged : Grounded requires base log
  due : ∀ k ∈ toWrite, ∀ v, value k = some v → requires k v (replay base log)

/-- What an entry requires stays as the table moves along `R`. -/
def Stable (R : σ → σ → Prop) (requires : κ → σ → (κ → σ) → Prop) : Prop :=
  ∀ k v table k' v', requires k v table → R (table k') v' →
    requires k v (Function.update table k' v')

section

variable {requires requires' : κ → σ → (κ → σ) → Prop}

theorem Grounded.nil : Grounded requires base ([] : List (κ × σ)) := by
  intro before k v after h
  exact absurd h (by simp)

theorem Grounded.append (h : Grounded requires base log) (hv : requires k v (replay base log)) :
    Grounded requires base (log ++ [(k, v)]) := by
  intro before k' v' after heq
  rcases List.eq_nil_or_concat after with rfl | ⟨after, last, rfl⟩
  · obtain ⟨rfl, hlast⟩ := List.append_inj' heq rfl
    obtain ⟨rfl, rfl⟩ := Prod.mk.inj (List.cons.inj hlast).1
    exact hv
  · rw [List.concat_eq_append, ← List.cons_append, ← List.append_assoc] at heq
    exact h before k' v' after (List.append_inj' heq rfl).1

theorem Grounded.mono (h : Grounded requires base log)
    (hreq : ∀ entry ∈ log, ∀ table,
      requires entry.1 entry.2 table → requires' entry.1 entry.2 table) :
    Grounded requires' base log := by
  rintro before k v after rfl
  exact hreq (k, v) (by simp) _ (h before k v after rfl)

variable {value value' : κ → Option σ} {toWrite toWrite' : List κ}

namespace Justified

theorem change (hgrounded : Grounded requires base log) (htracks : Tracks R base value [] log)
    (hdue : ∀ k ∈ toWrite', ∀ v, value' k = some v →
      requires k v fun k => (value k).getD (base k)) :
    Justified requires base value' toWrite' log where
  logged := hgrounded
  due k hk v hv := by
    rw [htracks.replay_eq]
    exact hdue k hk v hv

theorem flush (hstable : Stable R requires) (h : Justified requires base value (k :: toWrite) log)
    (htracks : Tracks R base value (k :: toWrite) log) (hk : value k = some v) :
    Justified requires base value toWrite (log ++ [(k, v)]) where
  logged := h.logged.append (h.due k List.mem_cons_self v hk)
  due k' hk' v' hv' := by
    rw [replay_append]
    exact hstable _ _ _ _ _ (h.due k' (List.mem_cons_of_mem k hk') v' hv')
      (htracks.behind k v hk List.mem_cons_self)

theorem mono (h : Justified requires base value toWrite log)
    (htracks : Tracks R base value toWrite log)
    (hkept : ∀ k v, value k = some v → value' k = some v)
    (hreq : ∀ k v, value k = some v → ∀ v' table, requires k v' table → requires' k v' table) :
    Justified requires' base value' toWrite log where
  logged := h.logged.mono fun entry hmem table hr =>
    have ⟨v, hv⟩ := htracks.known entry hmem
    hreq entry.1 v hv _ table hr
  due k hk v' hv' := by
    obtain ⟨v, hv⟩ := htracks.present k hk
    obtain rfl := Option.some.inj ((hkept k v hv).symm.trans hv')
    exact hreq k _ hv _ _ (h.due k hk _ hv)

end Justified

end

end ChangeLog

end Roster
