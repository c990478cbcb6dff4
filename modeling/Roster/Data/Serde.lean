import Roster.Data.Keyed
import Mathlib.Data.UInt

/-!
# Derived deserializers

What `#[derive(Deserialize)]` generates for a structure, on documents that are trees of sequences,
mappings and scalars.  The generated code goes through the entries of a mapping (`visitMap`): a key
that is a declared field has its value read, once; any other key is an error where unknown fields
are denied, and skipped otherwise.  Which fields are missing is asked at the end.

`visitMap_ok_iff` says which mappings get through: the keys are names, a declared field comes at
most once and has a value of its type, and no field is unknown where that is denied.
-/

namespace Roster

namespace Serde

/-- A document; scalars are read when their type is known. -/
inductive Value (σ : Type)
  | scalar (s : σ)
  | seq (items : List (Value σ))
  | map (entries : List (Value σ × Value σ))

/-- Why a document is rejected. -/
inductive Error
  | invalidType
  | unknownField (name : String) (expected : List String)
  | duplicateField (name : String)
  | missingField (name : String)
  deriving DecidableEq, Repr

/-- How a format reads its scalars; an empty one stands for an empty sequence or mapping. -/
structure Scalars (σ : Type) where
  asString : σ → Option String
  asU32 : σ → Option UInt32
  asU64 : σ → Option UInt64
  isEmpty : σ → Bool

/-- A field of a structure that is read into the local variables `P`. -/
structure Field (σ P : Type) where
  name : String
  isSet : P → Bool
  set : P → Value σ → Except Error P

namespace Scalars

variable {σ α : Type} (R : Scalars σ)

/-- Read a scalar by one of the format's functions. -/
def read (as : σ → Option α) : Value σ → Except Error α
  | .scalar s => match as s with
    | some a => .ok a
    | none => .error .invalidType
  | .seq _ | .map _ => .error .invalidType

/-- The name a key is, if it is one. -/
def name? : Value σ → Option String
  | .scalar s => R.asString s
  | .seq _ | .map _ => none

/-- The items of a sequence. -/
def items : Value σ → Except Error (List (Value σ))
  | .seq items => .ok items
  | .scalar s => if R.isEmpty s then .ok [] else .error .invalidType
  | .map _ => .error .invalidType

/-- The entries of a mapping. -/
def entries : Value σ → Except Error (List (Value σ × Value σ))
  | .map entries => .ok entries
  | .scalar s => if R.isEmpty s then .ok [] else .error .invalidType
  | .seq _ => .error .invalidType

end Scalars

section Visit

variable {σ P : Type} (R : Scalars σ) (fields : List (Field σ P)) (deny : Bool)

/-- One entry of a mapping. -/
def visitEntry (p : P) (entry : Value σ × Value σ) : Except Error P :=
  match R.name? entry.1 with
  | none => .error .invalidType
  | some name =>
    match Keyed.get? Field.name fields name with
    | some field => if field.isSet p then .error (.duplicateField name) else field.set p entry.2
    | none => if deny then .error (.unknownField name (fields.map Field.name)) else .ok p

/-- All entries of a mapping, in their order. -/
def visitMap (p : P) (entries : List (Value σ × Value σ)) : Except Error P :=
  entries.foldlM (visitEntry R fields deny) p

/-- The values a mapping gives a name. -/
def valuesOf (name : String) (entries : List (Value σ × Value σ)) : List (Value σ) :=
  (entries.filter fun entry => decide (R.name? entry.1 = some name)).map Prod.snd

end Visit

/-- A field that is read into an optional variable. -/
def Field.ofOption {σ P α : Type} (name : String) (get : P → Option α) (put : P → α → P)
    (read : Value σ → Except Error α) : Field σ P where
  name := name
  isSet p := (get p).isSome
  set p value := do return put p (← read value)

/-- A field without a default has to be there. -/
def required {α : Type} (name : String) : Option α → Except Error α
  | some a => .ok a
  | none => .error (.missingField name)

/-- The computation succeeds. -/
def Succeeds {α : Type} (x : Except Error α) : Prop := ∃ a, x = .ok a

section Succeeds

variable {α β : Type} {x : Except Error α} {f : α → Except Error β}

@[simp] theorem succeeds_ok (a : α) : Succeeds (.ok a : Except Error α) := ⟨a, rfl⟩

@[simp] theorem succeeds_pure (a : α) : Succeeds (pure a : Except Error α) := ⟨a, rfl⟩

@[simp] theorem succeeds_error (e : Error) : ¬ Succeeds (.error e : Except Error α) := by
  rintro ⟨a, h⟩
  cases h

theorem bind_eq_ok {b : β} : (x >>= f) = .ok b ↔ ∃ a, x = .ok a ∧ f a = .ok b := by
  cases x <;> simp [bind, Except.bind]

theorem succeeds_bind : Succeeds (x >>= f) ↔ ∃ a, x = .ok a ∧ Succeeds (f a) := by
  simp only [Succeeds, bind_eq_ok]
  exact ⟨fun ⟨b, a, ha, hb⟩ => ⟨a, ha, b, hb⟩, fun ⟨a, ha, b, hb⟩ => ⟨b, a, ha, hb⟩⟩

theorem succeeds_mapM {l : List α} : Succeeds (l.mapM f) ↔ ∀ a ∈ l, Succeeds (f a) := by
  induction l with
  | nil => simp
  | cons a l ih =>
    rw [List.mapM_cons, succeeds_bind, List.forall_mem_cons, ← ih]
    refine ⟨?_, ?_⟩
    · rintro ⟨b, hb, hrest⟩
      obtain ⟨bs, hbs, -⟩ := succeeds_bind.1 hrest
      exact ⟨⟨b, hb⟩, bs, hbs⟩
    · rintro ⟨⟨b, hb⟩, bs, hbs⟩
      exact ⟨b, hb, succeeds_bind.2 ⟨bs, hbs, succeeds_pure _⟩⟩

end Succeeds

variable {σ P : Type} {R : Scalars σ} {fields : List (Field σ P)} {deny : Bool}
  {reads : String → Value σ → Prop}

/-- The fields are told apart by their names, each is read by its type, and reading one sets that
one only. -/
structure Lawful (fields : List (Field σ P)) (reads : String → Value σ → Prop) : Prop where
  nodup : (fields.map Field.name).Nodup
  succeeds : ∀ field ∈ fields, ∀ p value, Succeeds (field.set p value) ↔ reads field.name value
  sets : ∀ field ∈ fields, ∀ p value p', field.set p value = .ok p' → ∀ other ∈ fields,
    other.isSet p' = (other.isSet p || decide (other.name = field.name))

theorem Lawful.set_self (h : Lawful fields reads) {field : Field σ P} (hfield : field ∈ fields)
    {p p' : P} {value : Value σ} (hset : field.set p value = .ok p') : field.isSet p' = true := by
  simp [h.sets field hfield p value p' hset field hfield]

theorem Lawful.set_other (h : Lawful fields reads) {field other : Field σ P}
    (hfield : field ∈ fields) (hother : other ∈ fields) (hne : other.name ≠ field.name) {p p' : P}
    {value : Value σ} (hset : field.set p value = .ok p') : other.isSet p' = other.isSet p := by
  simp [h.sets field hfield p value p' hset other hother, hne]

section OfOption

variable {α : Type} {name : String} {get : P → Option α} {put : P → α → P}
  {read : Value σ → Except Error α} {p p' : P} {value : Value σ}

theorem set_ofOption : (Field.ofOption name get put read).set p value = .ok p' ↔
    ∃ a, read value = .ok a ∧ put p a = p' := by
  simp only [Field.ofOption, bind_eq_ok, pure, Except.pure, Except.ok.injEq]

theorem succeeds_ofOption :
    Succeeds ((Field.ofOption name get put read).set p value) ↔ Succeeds (read value) := by
  simp only [Succeeds, set_ofOption]
  exact ⟨fun ⟨_, a, ha, _⟩ => ⟨a, ha⟩, fun ⟨a, ha⟩ => ⟨_, a, ha, rfl⟩⟩

@[simp] theorem name_ofOption : (Field.ofOption name get put read).name = name := rfl

@[simp] theorem isSet_ofOption : (Field.ofOption name get put read).isSet p = (get p).isSome := rfl

end OfOption

theorem valuesOf_cons (name : String) (entry : Value σ × Value σ)
    (entries : List (Value σ × Value σ)) : valuesOf R name (entry :: entries) =
      if R.name? entry.1 = some name then entry.2 :: valuesOf R name entries
      else valuesOf R name entries := by
  unfold valuesOf
  rw [List.filter_cons]
  by_cases h : R.name? entry.1 = some name <;> simp [h]

/-- An entry with the name of a field sets that field, once. -/
theorem visitEntry_field (h : Lawful fields reads) {field : Field σ P} (hfield : field ∈ fields)
    {p : P} {entry : Value σ × Value σ} (hname : R.name? entry.1 = some field.name) :
    visitEntry R fields deny p entry =
      if field.isSet p then .error (.duplicateField field.name) else field.set p entry.2 := by
  rw [visitEntry, hname]
  simp only [Keyed.get?_of_mem h.nodup hfield]

/-- An entry with any other name is skipped, unless that is denied. -/
theorem visitEntry_unknown {p : P} {entry : Value σ × Value σ} {name : String}
    (hname : R.name? entry.1 = some name) (hunknown : name ∉ fields.map Field.name) :
    visitEntry R fields deny p entry =
      if deny then .error (.unknownField name (fields.map Field.name)) else .ok p := by
  have hnone : Keyed.get? Field.name fields name = none :=
    Keyed.get?_eq_none.2 fun field hmem heq => hunknown (List.mem_map.2 ⟨field, hmem, heq⟩)
  rw [visitEntry, hname]
  simp only [hnone]

/-- Every declared field comes at most once, counting what is set already, and each of its values is
of its type. -/
def Fits (R : Scalars σ) (fields : List (Field σ P)) (reads : String → Value σ → Prop) (p : P)
    (entries : List (Value σ × Value σ)) : Prop :=
  ∀ field ∈ fields, (valuesOf R field.name entries).length + (field.isSet p).toNat ≤ 1 ∧
    ∀ value ∈ valuesOf R field.name entries, reads field.name value

/-- Every key is a name, and a declared one where unknown fields are denied. -/
def Known (R : Scalars σ) (fields : List (Field σ P)) (deny : Bool) (key : Value σ) : Prop :=
  ∃ name, R.name? key = some name ∧ (deny = true → name ∈ fields.map Field.name)

theorem fits_nil (p : P) : Fits R fields reads p [] := by
  intro field _
  refine ⟨?_, by simp [valuesOf]⟩
  have hle := Bool.toNat_le (field.isSet p)
  simpa [valuesOf] using hle

theorem valuesOf_cons_ne {name other : String} {entry : Value σ × Value σ}
    {entries : List (Value σ × Value σ)} (hname : R.name? entry.1 = some name)
    (hne : other ≠ name) : valuesOf R other (entry :: entries) = valuesOf R other entries := by
  rw [valuesOf_cons, hname, if_neg]
  rintro ⟨⟩
  exact hne rfl

/-- What is left of a mapping fits once the field of its first entry is set. -/
theorem Lawful.fits_cons (h : Lawful fields reads) {field : Field σ P} (hfield : field ∈ fields)
    {p : P} {entry : Value σ × Value σ} {entries : List (Value σ × Value σ)}
    (hname : R.name? entry.1 = some field.name) : Fits R fields reads p (entry :: entries) ↔
      field.isSet p = false ∧
        ∃ p', field.set p entry.2 = .ok p' ∧ Fits R fields reads p' entries := by
  have hself : valuesOf R field.name (entry :: entries) =
      entry.2 :: valuesOf R field.name entries := by rw [valuesOf_cons, if_pos hname]
  have hother : ∀ other ∈ fields, other ≠ field → other.name ≠ field.name :=
    fun other hmem hne heq => hne (List.inj_on_of_nodup_map h.nodup hmem hfield heq)
  constructor
  · intro hfits
    obtain ⟨hlen, hreads⟩ := hfits field hfield
    rw [hself, List.length_cons] at hlen
    rw [hself] at hreads
    -- a second entry of the field would be a duplicate
    have hunset : field.isSet p = false := by
      cases hset : field.isSet p with
      | false => rfl
      | true => rw [hset] at hlen; simp at hlen
    have hrest : valuesOf R field.name entries = [] := by
      rw [hunset] at hlen
      simpa using hlen
    obtain ⟨p', hp'⟩ := (h.succeeds field hfield p entry.2).2 (hreads _ List.mem_cons_self)
    refine ⟨hunset, p', hp', fun other hmem => ?_⟩
    by_cases hsame : other = field
    · subst hsame
      rw [hrest, h.set_self hmem hp']
      exact ⟨le_rfl, by simp⟩
    · have hne := hother other hmem hsame
      rw [h.set_other hfield hmem hne hp',
        ← valuesOf_cons_ne hname hne]
      exact hfits other hmem
  -- setting one field leaves what is asked of the others as it was
  · rintro ⟨hunset, p', hp', hfits⟩ other hmem
    by_cases hsame : other = field
    · subst hsame
      obtain ⟨hlen, hreads⟩ := hfits other hmem
      rw [h.set_self hmem hp'] at hlen
      rw [hself, hunset, List.length_cons]
      refine ⟨by simpa using hlen, List.forall_mem_cons.2 ⟨?_, hreads⟩⟩
      exact (h.succeeds other hmem p entry.2).1 ⟨p', hp'⟩
    · have hne := hother other hmem hsame
      rw [valuesOf_cons_ne hname hne, ← h.set_other hfield hmem hne hp']
      exact hfits other hmem

/-- **Which mappings get through**: the keys are names, and declared ones where unknown fields are
denied; every declared field comes at most once, with a value of its type. -/
theorem visitMap_ok_iff (h : Lawful fields reads) {p : P} {entries : List (Value σ × Value σ)} :
    Succeeds (visitMap R fields deny p entries) ↔
      (∀ entry ∈ entries, Known R fields deny entry.1) ∧ Fits R fields reads p entries := by
  induction entries generalizing p with
  | nil => simp [visitMap, fits_nil]
  | cons entry entries ih =>
    unfold visitMap at ih ⊢
    rw [List.foldlM_cons, succeeds_bind, List.forall_mem_cons]
    cases hname : R.name? entry.1 with
    | none =>
      rw [visitEntry, hname]
      simp [Known, hname]
    | some name =>
      by_cases hknown : name ∈ fields.map Field.name
      · obtain ⟨field, hfield, rfl⟩ := List.mem_map.1 hknown
        have hkey : Known R fields deny entry.1 := ⟨field.name, hname, fun _ => hknown⟩
        rw [visitEntry_field h hfield hname, h.fits_cons hfield hname]
        cases hset : field.isSet p with
        | true => simp
        | false =>
          simp only [Bool.false_eq_true, if_false, ih, true_and, hkey]
          constructor
          · rintro ⟨p', hp', hkeys, hfits⟩; exact ⟨hkeys, p', hp', hfits⟩
          · rintro ⟨hkeys, p', hp', hfits⟩; exact ⟨p', hp', hkeys, hfits⟩
      · have hsame : Fits R fields reads p (entry :: entries) ↔ Fits R fields reads p entries := by
          refine forall₂_congr fun field hfield => ?_
          rw [valuesOf_cons_ne hname fun heq => hknown (heq ▸ List.mem_map_of_mem hfield)]
        have hkey : Known R fields deny entry.1 ↔ deny = false := by
          cases deny with
          | false => simp [Known, hname]
          | true => simpa [Known, hname] using hknown
        rw [visitEntry_unknown hname hknown, hsame, hkey]
        cases deny <;> simp [ih]

/-- A field is set in the end if it was set or a value came. -/
theorem isSet_visitMap (h : Lawful fields reads) {p p' : P} {entries : List (Value σ × Value σ)}
    (hvisit : visitMap R fields deny p entries = .ok p') {field : Field σ P}
    (hfield : field ∈ fields) :
    field.isSet p' = true ↔ field.isSet p = true ∨ valuesOf R field.name entries ≠ [] := by
  induction entries generalizing p with
  | nil =>
    obtain rfl : p = p' := by simpa [visitMap, pure, Except.pure] using hvisit
    simp [valuesOf]
  | cons entry entries ih =>
    unfold visitMap at ih hvisit
    rw [List.foldlM_cons] at hvisit
    obtain ⟨mid, hmid, hrest⟩ := bind_eq_ok.1 hvisit
    rw [ih hrest]
    cases hname : R.name? entry.1 with
    | none => rw [visitEntry, hname] at hmid; cases hmid
    | some name =>
      -- only a known key sets a field, and only its own
      by_cases hknown : name ∈ fields.map Field.name
      · obtain ⟨other, hother, rfl⟩ := List.mem_map.1 hknown
        rw [visitEntry_field h hother hname] at hmid
        split at hmid
        · cases hmid
        · by_cases hsame : field = other
          · subst hsame
            rw [h.set_self hfield hmid, valuesOf_cons, if_pos hname]
            simp
          · have hne : field.name ≠ other.name := fun heq =>
              hsame (List.inj_on_of_nodup_map h.nodup hfield hother heq)
            rw [h.set_other hother hfield hne hmid,
              valuesOf_cons_ne hname hne]
      · rw [visitEntry_unknown hname hknown] at hmid
        split at hmid
        · cases hmid
        · obtain rfl := Except.ok.inj hmid
          rw [valuesOf_cons_ne hname fun heq => hknown (heq ▸ List.mem_map_of_mem hfield)]

/-! ### What is readable -/

/-- A scalar that one of the format's functions reads. -/
def IsScalar {α : Type} (as : σ → Option α) (value : Value σ) : Prop :=
  ∃ s a, value = .scalar s ∧ as s = some a

/-- A sequence of such items. -/
def IsSeq (R : Scalars σ) (item : Value σ → Prop) (value : Value σ) : Prop :=
  ∃ items, R.items value = .ok items ∧ ∀ a ∈ items, item a

/-- A mapping whose keys are names, with each declared field at most once and of its type, and each
required one there.  Other keys do not matter. -/
def IsStruct (R : Scalars σ) (names : List String) (reads : String → Value σ → Prop)
    (required : List String) (value : Value σ) : Prop :=
  ∃ entries, R.entries value = .ok entries ∧
    (∀ entry ∈ entries, (R.name? entry.1).isSome = true) ∧
    (∀ name ∈ names, (valuesOf R name entries).length ≤ 1 ∧
      ∀ v ∈ valuesOf R name entries, reads name v) ∧
    ∀ name ∈ required, valuesOf R name entries ≠ []

/-- The entries of a mapping, none if the value is no mapping. -/
def entriesOf (R : Scalars σ) (value : Value σ) : List (Value σ × Value σ) :=
  (R.entries value).toOption.getD []

/-- The items of a sequence, none if the value is no sequence. -/
def itemsOf (R : Scalars σ) (value : Value σ) : List (Value σ) :=
  (R.items value).toOption.getD []

/-- A mapping with a key that is none of these. -/
def HasKeyBeyond (R : Scalars σ) (names : List String) (value : Value σ) : Prop :=
  ∃ entry ∈ entriesOf R value, ∀ name, R.name? entry.1 = some name → name ∉ names

theorem succeeds_read {α : Type} {as : σ → Option α} {value : Value σ} :
    Succeeds (Scalars.read as value) ↔ IsScalar as value := by
  cases value with
  | scalar s =>
    unfold Scalars.read
    cases h : as s <;> simp [IsScalar, h]
  | seq items => simp [Scalars.read, IsScalar]
  | map entries => simp [Scalars.read, IsScalar]

theorem succeeds_items {α : Type} {read : Value σ → Except Error α} {value : Value σ} :
    Succeeds (do (← R.items value).mapM read) ↔ IsSeq R (fun v => Succeeds (read v)) value := by
  simp only [succeeds_bind, succeeds_mapM, IsSeq]

theorem exists_required {α : Type} {name : String} {a : Option α} :
    (∃ b, required name a = .ok b) ↔ a.isSome = true := by
  cases a <;> simp [required]

/-- A derived structure is read exactly if the value is one, without an unknown field where that is
denied. -/
theorem Lawful.visit_ok_iff (h : Lawful fields reads) (R : Scalars σ) (deny : Bool) {p : P}
    (hunset : ∀ field ∈ fields, field.isSet p = false) {required : List String}
    (hrequired : required ⊆ fields.map Field.name) (value : Value σ) :
    (∃ entries, R.entries value = .ok entries ∧ ∃ p', visitMap R fields deny p entries = .ok p' ∧
      ∀ field ∈ fields, field.name ∈ required → field.isSet p' = true) ↔
    IsStruct R (fields.map Field.name) reads required value ∧
      ¬ (deny = true ∧ HasKeyBeyond R (fields.map Field.name) value) := by
  have hfits : ∀ entries, Fits R fields reads p entries ↔ ∀ name ∈ fields.map Field.name,
      (valuesOf R name entries).length ≤ 1 ∧ ∀ v ∈ valuesOf R name entries, reads name v := by
    intro entries
    rw [List.forall_mem_map]
    refine forall₂_congr fun field hfield => ?_
    rw [hunset field hfield, Bool.toNat_false, Nat.add_zero]
  -- what is set in the end came with the mapping
  have hset : ∀ entries p', visitMap R fields deny p entries = .ok p' →
      ((∀ field ∈ fields, field.name ∈ required → field.isSet p' = true) ↔
        ∀ name ∈ required, valuesOf R name entries ≠ []) := by
    intro entries p' hvisit
    have hone : ∀ field ∈ fields, field.isSet p' = true ↔ valuesOf R field.name entries ≠ [] := by
      intro field hfield
      rw [isSet_visitMap h hvisit hfield, hunset field hfield]
      simp
    constructor
    · intro hall name hname
      obtain ⟨field, hfield, rfl⟩ := List.mem_map.1 (hrequired hname)
      exact (hone field hfield).1 (hall field hfield hname)
    · exact fun hall field hfield hname => (hone field hfield).2 (hall _ hname)
  constructor
  · rintro ⟨entries, hentries, p', hvisit, hall⟩
    obtain ⟨hkeys, hfit⟩ := (visitMap_ok_iff h).1 ⟨p', hvisit⟩
    refine ⟨⟨entries, hentries, fun entry hmem => ?_, (hfits entries).1 hfit,
      (hset entries p' hvisit).1 hall⟩, ?_⟩
    · obtain ⟨name, hname, -⟩ := hkeys entry hmem
      rw [hname]
      rfl
    · rintro ⟨hdeny, entry, hmem, hbeyond⟩
      simp only [entriesOf, hentries, Except.toOption, Option.getD_some] at hmem
      obtain ⟨name, hname, hknown⟩ := hkeys entry hmem
      exact hbeyond name hname (hknown hdeny)
  · rintro ⟨⟨entries, hentries, hnames, hfit, hall⟩, hbeyond⟩
    have hkeys : ∀ entry ∈ entries, Known R fields deny entry.1 := by
      intro entry hmem
      obtain ⟨name, hname⟩ := Option.isSome_iff_exists.1 (hnames entry hmem)
      refine ⟨name, hname, fun hdeny => ?_⟩
      by_contra hunknown
      refine hbeyond ⟨hdeny, entry, ?_, fun other hother => ?_⟩
      · simpa [entriesOf, hentries, Except.toOption] using hmem
      · obtain rfl := Option.some.inj (hname.symm.trans hother)
        exact hunknown
    obtain ⟨p', hvisit⟩ := (visitMap_ok_iff h).2 ⟨hkeys, (hfits entries).2 hfit⟩
    exact ⟨entries, hentries, p', hvisit, (hset entries p' hvisit).2 hall⟩

/-- What more is asked of the items of a sequence. -/
theorem isSeq_and {item more : Value σ → Prop} {value : Value σ} :
    IsSeq R (fun v => item v ∧ more v) value ↔
      IsSeq R item value ∧ ∀ v ∈ itemsOf R value, more v := by
  constructor
  · rintro ⟨items, hitems, hall⟩
    refine ⟨⟨items, hitems, fun v hv => (hall v hv).1⟩, fun v hv => (hall v ?_).2⟩
    simpa [itemsOf, hitems, Except.toOption] using hv
  · rintro ⟨⟨items, hitems, hall⟩, hmore⟩
    refine ⟨items, hitems, fun v hv => ⟨hall v hv, hmore v ?_⟩⟩
    simpa [itemsOf, hitems, Except.toOption] using hv

/-- What more is asked of the values of a structure's fields. -/
theorem isStruct_and {names required : List String} {more : String → Value σ → Prop}
    {value : Value σ} :
    IsStruct R names (fun name v => reads name v ∧ more name v) required value ↔
      IsStruct R names reads required value ∧
        ∀ name ∈ names, ∀ v ∈ valuesOf R name (entriesOf R value), more name v := by
  constructor
  · rintro ⟨entries, hentries, hkeys, hall, hrequired⟩
    refine ⟨⟨entries, hentries, hkeys, fun name hname => ?_, hrequired⟩, fun name hname v hv => ?_⟩
    · exact ⟨(hall name hname).1, fun v hv => ((hall name hname).2 v hv).1⟩
    · refine ((hall name hname).2 v ?_).2
      simpa [entriesOf, hentries, Except.toOption] using hv
  · rintro ⟨⟨entries, hentries, hkeys, hall, hrequired⟩, hmore⟩
    refine ⟨entries, hentries, hkeys, fun name hname => ⟨(hall name hname).1, fun v hv => ?_⟩,
      hrequired⟩
    refine ⟨(hall name hname).2 v hv, hmore name hname v ?_⟩
    simpa [entriesOf, hentries, Except.toOption] using hv

end Serde

end Roster
