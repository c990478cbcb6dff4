import Mathlib.Data.List.Nodup
import Mathlib.Algebra.BigOperators.Group.List.Basic

/-!
# Hash maps as lists of records

A `HashMap` whose values carry their own key is a list of records with distinct keys; the order
of the list is the (arbitrary) iteration order of the map.  `get?`, `modify` and `insert` are
the map operations; the lemmas say what they leave alone, and `sum_modify` how a quantity summed
over the whole map changes when one record does.
-/

namespace Roster

namespace Keyed

variable {α κ M : Type*} [DecidableEq κ] (key : α → κ)

/-- `map.get(k)`. -/
def get? (l : List α) (k : κ) : Option α := l.find? fun a => decide (key a = k)

/-- Apply `f` to the record of key `k` (`if let Some(a) = map.get_mut(k) { … }`). -/
def modify (l : List α) (k : κ) (f : α → α) : List α := l.map fun a => if key a = k then f a else a

/-- `map.insert(k, a)` with `k` the key of `a`: replaces the record of that key, if any. -/
def insert (l : List α) (a : α) : List α :=
  if (get? key l (key a)).isSome then modify key l (key a) fun _ => a else l ++ [a]

/-- `map.remove(k)`. -/
def erase (l : List α) (k : κ) : List α := l.filter fun a => decide (key a ≠ k)

variable {key} {l : List α} {k k' : κ} {a : α} {f : α → α}

@[simp] theorem get?_nil : get? key [] k = none := rfl

theorem get?_cons (b : α) :
    get? key (b :: l) k = if key b = k then some b else get? key l k := by
  simp only [get?, List.find?_cons]; split <;> simp_all

theorem mem_of_get? (h : get? key l k = some a) : a ∈ l := List.mem_of_find?_eq_some h

theorem key_of_get? (h : get? key l k = some a) : key a = k := by
  simpa using List.find?_some h

theorem get?_eq_none : get? key l k = none ↔ ∀ b ∈ l, key b ≠ k := by
  simp [get?, List.find?_eq_none]

theorem get?_of_mem (hl : (l.map key).Nodup) (ha : a ∈ l) : get? key l (key a) = some a := by
  induction l with
  | nil => cases ha
  | cons b l ih =>
    rw [List.map_cons, List.nodup_cons] at hl
    rw [get?_cons]
    rcases List.mem_cons.1 ha with rfl | hmem
    · simp
    · have hne : key b ≠ key a := fun h => hl.1 (h ▸ List.mem_map_of_mem hmem)
      rw [if_neg hne, ih hl.2 hmem]

theorem get?_eq_some (hl : (l.map key).Nodup) : get? key l k = some a ↔ a ∈ l ∧ key a = k :=
  ⟨fun h => ⟨mem_of_get? h, key_of_get? h⟩, fun ⟨ha, hk⟩ => hk ▸ get?_of_mem hl ha⟩

theorem get?_map {β : Type*} {key' : β → κ} {g : α → β} (hg : ∀ a ∈ l, key' (g a) = key a) :
    get? key' (l.map g) k = (get? key l k).map g := by
  induction l with
  | nil => rfl
  | cons b l ih =>
    rw [List.forall_mem_cons] at hg
    rw [List.map_cons, get?_cons, get?_cons, ih hg.2, hg.1]
    split <;> rfl

/-- Looking up does not depend on the order of the records. -/
theorem get?_perm {l' : List α} (h : l.Perm l') (hl : (l.map key).Nodup) :
    get? key l' k = get? key l k := by
  have hl' : (l'.map key).Nodup := (h.map key).nodup_iff.1 hl
  ext a
  rw [get?_eq_some hl, get?_eq_some hl', h.mem_iff]

/-! ### Changing one record -/

theorem map_key_modify (hf : ∀ a, key a = k → key (f a) = k) :
    (modify key l k f).map key = l.map key := by
  simp only [modify, List.map_map]
  refine List.map_congr_left fun a _ => ?_
  simp only [Function.comp_apply]
  split
  · next h => rw [hf a h, h]
  · rfl

theorem mem_modify {b : α} :
    b ∈ modify key l k f ↔ (∃ a ∈ l, key a = k ∧ f a = b) ∨ (b ∈ l ∧ key b ≠ k) := by
  simp only [modify, List.mem_map]
  constructor
  · rintro ⟨a, ha, hab⟩
    by_cases hk : key a = k
    · exact .inl ⟨a, ha, hk, by simpa [hk] using hab⟩
    · simp only [hk, if_false] at hab
      exact .inr ⟨hab ▸ ha, hab ▸ hk⟩
  · rintro (⟨a, ha, hk, hab⟩ | ⟨hb, hk⟩)
    · exact ⟨a, ha, by simpa [hk] using hab⟩
    · exact ⟨b, hb, by simp [hk]⟩

theorem get?_modify_self (hf : ∀ a, key a = k → key (f a) = k) :
    get? key (modify key l k f) k = (get? key l k).map f := by
  induction l with
  | nil => rfl
  | cons b l ih =>
    simp only [modify, List.map_cons, get?_cons] at ih ⊢
    by_cases hb : key b = k
    · simp [hb, hf b hb]
    · simp only [hb, if_false]; exact ih

theorem get?_modify_ne (hf : ∀ a, key a = k → key (f a) = k) (hk : k' ≠ k) :
    get? key (modify key l k f) k' = get? key l k' := by
  induction l with
  | nil => rfl
  | cons b l ih =>
    simp only [modify, List.map_cons, get?_cons] at ih ⊢
    by_cases hb : key b = k
    · have hne : k ≠ k' := hk.symm
      simp only [hb, if_true, hf b hb, hne, if_false]; exact ih
    · simp only [hb, if_false]
      split
      · rfl
      · exact ih

/-- A quantity summed over the map changes by the change of the one record. -/
theorem sum_modify [AddCommMonoid M] (g : α → M) (hl : (l.map key).Nodup)
    (h : get? key l k = some a) :
    ∃ rest, (l.map g).sum = g a + rest ∧ ((modify key l k f).map g).sum = g (f a) + rest := by
  induction l with
  | nil => cases h
  | cons b l ih =>
    rw [List.map_cons, List.nodup_cons] at hl
    rw [get?_cons] at h
    split at h
    · next hb =>
      obtain rfl := Option.some.inj h
      have hsame : modify key l k f = l := by
        refine (List.map_congr_left fun c hc => ?_).trans (List.map_id l)
        have hne : key c ≠ k := fun hck => hl.1 (hb.trans hck.symm ▸ List.mem_map_of_mem hc)
        simp [hne]
      refine ⟨(l.map g).sum, by simp, ?_⟩
      have hcons : modify key (b :: l) k f = f b :: modify key l k f := by simp [modify, hb]
      rw [hcons, hsame, List.map_cons, List.sum_cons]
    · next hb =>
      obtain ⟨rest, h₁, h₂⟩ := ih hl.2 h
      have hcons : modify key (b :: l) k f = b :: modify key l k f := by simp [modify, hb]
      refine ⟨g b + rest, ?_, ?_⟩
      · rw [List.map_cons, List.sum_cons, h₁, add_left_comm]
      · rw [hcons, List.map_cons, List.sum_cons, h₂, add_left_comm]

/-! ### Adding a record -/

theorem insert_of_fresh (h : get? key l (key a) = none) : insert key l a = l ++ [a] := by
  simp [insert, h]

theorem get?_append_singleton (b : α) (h : get? key l (key b) = none) :
    get? key (l ++ [b]) k = if key b = k then some b else get? key l k := by
  induction l with
  | nil => simp [get?_cons]
  | cons c l ih =>
    rw [get?_cons] at h
    split at h
    · cases h
    · next hc =>
      rw [List.cons_append, get?_cons, get?_cons, ih h]
      by_cases hb : key b = k
      · subst hb; simp [hc]
      · simp [hb]

theorem nodup_append_singleton (hl : (l.map key).Nodup) (h : get? key l (key a) = none) :
    ((l ++ [a]).map key).Nodup := by
  rw [List.map_append, List.map_singleton, List.nodup_append]
  refine ⟨hl, List.nodup_singleton _, ?_⟩
  rintro x hx y hy rfl
  obtain ⟨b, hb, hbk⟩ := List.mem_map.1 hx
  rw [List.mem_singleton] at hy
  exact get?_eq_none.1 h b hb (hbk.trans hy)

/-- Looking up after an insert. -/
theorem get?_insert : get? key (insert key l a) k = if key a = k then some a else get? key l k := by
  unfold insert
  split
  · next h =>
    by_cases hk : key a = k
    · subst hk
      rw [get?_modify_self fun _ _ => rfl, if_pos rfl]
      obtain ⟨b, hb⟩ := Option.isSome_iff_exists.1 h
      rw [hb, Option.map_some]
    · rw [get?_modify_ne (fun _ _ => rfl) (Ne.symm hk), if_neg hk]
  · next h =>
    rw [get?_append_singleton a (by simpa using h)]

theorem nodup_insert (hl : (l.map key).Nodup) : ((insert key l a).map key).Nodup := by
  unfold insert
  split
  · rwa [map_key_modify fun _ _ => rfl]
  · next h => exact nodup_append_singleton hl (by simpa using h)

theorem mem_insert {b : α} (hb : b ∈ insert key l a) : b = a ∨ b ∈ l := by
  unfold insert at hb
  split at hb
  · rcases mem_modify.1 hb with ⟨_, _, _, rfl⟩ | ⟨hb, -⟩
    · exact .inl rfl
    · exact .inr hb
  · rcases List.mem_append.1 hb with hb | hb
    · exact .inr hb
    · exact .inl (List.mem_singleton.1 hb)

/-! ### Records in another form -/

/-- Changing a record in one form or in another. -/
theorem modify_map {β : Type*} {key' : β → κ} {g : α → β} {f' : β → β}
    (hkey : ∀ a, key' (g a) = key a) (hf : ∀ a, f' (g a) = g (f a)) :
    modify key' (l.map g) k f' = (modify key l k f).map g := by
  simp only [modify, List.map_map]
  refine List.map_congr_left fun a _ => ?_
  simp only [Function.comp_apply, hkey, hf]
  split <;> rfl

/-- Adding a record in one form or in another. -/
theorem insert_map {β : Type*} {key' : β → κ} {g : α → β} (hkey : ∀ a, key' (g a) = key a) :
    insert key' (l.map g) (g a) = (insert key l a).map g := by
  unfold insert
  rw [get?_map fun a _ => hkey a, hkey, Option.isSome_map]
  split
  · exact modify_map hkey fun _ => rfl
  · rw [List.map_append, List.map_singleton]

/-! ### Taking a record out -/

theorem get?_erase : get? key (erase key l k') k = if k' = k then none else get? key l k := by
  induction l with
  | nil => simp [erase]
  | cons b l ih =>
    simp only [erase, List.filter_cons, decide_eq_true_eq] at ih ⊢
    by_cases hb : key b = k'
    · rw [if_neg (by simp [hb]), ih, get?_cons, hb]
      split <;> rfl
    · rw [if_pos hb, get?_cons, ih, get?_cons]
      by_cases hk : k' = k
      · simp [hk, hk ▸ hb]
      · simp [hk]

theorem nodup_erase (hl : (l.map key).Nodup) : ((erase key l k).map key).Nodup :=
  hl.sublist (List.filter_sublist.map key)

end Keyed

end Roster
