import Roster.Data.Serde
import Mathlib.Data.List.FinRange
import Mathlib.Data.List.Perm.Basic
import Mathlib.Data.Fin.VecNotation
import Mathlib.Data.Fintype.Basic

/-!
# Derived serializers

What `#[derive(Serialize, Deserialize)]` generates for a type, on documents whose scalars are null,
booleans, integers and texts.  A `Codec` is a writer and a reader, with the proof that what is
written is read back; there is one for each scalar type, for options, for lists, for structures
given member by member (`Derived`) and for enums whose variant is named by an entry (`Tagged`).

A derived structure reads more than it writes (`Derived.visit_of_shows`): its entries in any order,
with entries that are no member of it, and without the members that have a default.
-/

namespace Roster

namespace Serde

/-! ### Scalars -/

/-- The scalars of a document. -/
inductive Scalar
  | null
  | bool (b : Bool)
  | int (n : ℤ)
  | text (s : String)
  deriving DecidableEq

namespace Scalar

def asText : Scalar → Option String
  | .text s => some s
  | _ => none

def asBool : Scalar → Option Bool
  | .bool b => some b
  | _ => none

/-- An integer from `lo` up to, but not including, `hi`. -/
def asInt (lo hi : ℤ) : Scalar → Option ℤ
  | .int n => if lo ≤ n ∧ n < hi then some n else none
  | _ => none

def asUInt32 (s : Scalar) : Option UInt32 := (s.asInt 0 4294967296).map fun n => .ofNat n.toNat

def asUInt64 (s : Scalar) : Option UInt64 :=
  (s.asInt 0 18446744073709551616).map fun n => .ofNat n.toNat

def asInt32 (s : Scalar) : Option Int32 := (s.asInt (-2147483648) 2147483648).map Int32.ofInt

def asInt64 (s : Scalar) : Option Int64 :=
  (s.asInt (-9223372036854775808) 9223372036854775808).map Int64.ofInt

theorem asInt_int {lo hi n : ℤ} (hlo : lo ≤ n) (hhi : n < hi) :
    (Scalar.int n).asInt lo hi = some n := if_pos ⟨hlo, hhi⟩

end Scalar

/-- How the scalars are read; there are no empty ones that stand for a sequence or a mapping. -/
def scalars : Scalars Scalar where
  asString := Scalar.asText
  asU32 := Scalar.asUInt32
  asU64 := Scalar.asUInt64
  isEmpty _ := false

/-- A key with that name. -/
def key (name : String) : Value Scalar := .scalar (.text name)

@[simp] theorem name?_key (name : String) : scalars.name? (key name) = some name := rfl

/-- The keys of every mapping are texts. -/
inductive Named : Value Scalar → Prop
  | scalar (s : Scalar) : Named (.scalar s)
  | seq {items : List (Value Scalar)} : (∀ item ∈ items, Named item) → Named (.seq items)
  | map {entries : List (Value Scalar × Value Scalar)} :
      (∀ entry ∈ entries, ∃ name, entry.1 = key name) → (∀ entry ∈ entries, Named entry.2) →
        Named (.map entries)

/-! ### Codecs -/

/-- A type that is written to documents, and read back from them. -/
structure Codec (ε α : Type) where
  write : α → Value Scalar
  read : Value Scalar → Except ε α
  read_write : ∀ a, read (write a) = .ok a
  named : ∀ a, Named (write a)

namespace Codec

variable {α β : Type}

/-- A type written as a scalar. -/
def scalar (as : Scalar → Option α) (of : α → Scalar) (h : ∀ a, as (of a) = some a) :
    Codec Error α where
  write a := .scalar (of a)
  read := Scalars.read as
  read_write a := by simp [Scalars.read, h]
  named a := .scalar _

def text : Codec Error String := scalar Scalar.asText .text fun _ => rfl

def bool : Codec Error Bool := scalar Scalar.asBool .bool fun _ => rfl

def uint32 : Codec Error UInt32 := scalar Scalar.asUInt32 (fun n => .int n.toNat) fun n => by
  rw [Scalar.asUInt32, Scalar.asInt_int (by omega) (by exact_mod_cast n.toNat_lt)]
  simp

def uint64 : Codec Error UInt64 := scalar Scalar.asUInt64 (fun n => .int n.toNat) fun n => by
  rw [Scalar.asUInt64, Scalar.asInt_int (by omega) (by exact_mod_cast n.toNat_lt)]
  simp

def int32 : Codec Error Int32 := scalar Scalar.asInt32 (fun n => .int n.toInt) fun n => by
  have hlo := n.le_toInt
  have hhi := n.toInt_lt
  rw [Scalar.asInt32, Scalar.asInt_int (by omega) (by omega)]
  simp

def int64 : Codec Error Int64 := scalar Scalar.asInt64 (fun n => .int n.toInt) fun n => by
  have hlo := n.le_toInt
  have hhi := n.toInt_lt
  rw [Scalar.asInt64, Scalar.asInt_int (by omega) (by omega)]
  simp

theorem text_read : text.read = Scalars.read scalars.asString := rfl

theorem uint32_read : uint32.read = Scalars.read scalars.asU32 := rfl

theorem uint64_read : uint64.read = Scalars.read scalars.asU64 := rfl

@[simp] theorem read_text (a : String) : Scalars.read scalars.asString (text.write a) = .ok a := by
  rw [← text_read, text.read_write]

@[simp] theorem read_uint32 (n : UInt32) :
    Scalars.read scalars.asU32 (uint32.write n) = .ok n := by
  rw [← uint32_read, uint32.read_write]

@[simp] theorem read_uint64 (n : UInt64) :
    Scalars.read scalars.asU64 (uint64.write n) = .ok n := by
  rw [← uint64_read, uint64.read_write]

/-- The value is null. -/
def isNull : Value Scalar → Bool
  | .scalar .null => true
  | _ => false

/-- `Option<T>`, for a type that is never written as null. -/
def option (c : Codec Error α) (h : ∀ a, isNull (c.write a) = false) : Codec Error (Option α) where
  write
    | none => .scalar .null
    | some a => c.write a
  read value := if isNull value then .ok none else return some (← c.read value)
  read_write
    | none => rfl
    | some a => by simp [h, c.read_write, pure, Except.pure, bind, Except.bind]
  named
    | none => .scalar _
    | some a => c.named a

theorem mapM_map_ok {f : β → Except Error α} {g : α → β} (h : ∀ a, f (g a) = .ok a) (l : List α) :
    (l.map g).mapM f = .ok l := by
  induction l with
  | nil => rfl
  | cons a l ih =>
    rw [List.map_cons, List.mapM_cons, h, ih]
    rfl

/-- `Vec<T>`. -/
def list (c : Codec Error α) : Codec Error (List α) where
  write l := .seq (l.map c.write)
  read value := do (← scalars.items value).mapM c.read
  read_write := mapM_map_ok c.read_write
  named _ := .seq (List.forall_mem_map.2 fun a _ => c.named a)

end Codec

/-! ### Structures -/

/-- A member of a structure. -/
structure Member where
  type : Type
  codec : Codec Error type
  /-- What stands for it when it is missing. -/
  missing : Option type

namespace Member

/-- A member that has to be there. -/
def required {α : Type} (codec : Codec Error α) : Member where
  type := α
  codec := codec
  missing := none

/-- A member with a default, or an `Option`, which is `none` when it is missing. -/
def withDefault {α : Type} (codec : Codec Error α) (default : α) : Member where
  type := α
  codec := codec
  missing := some default

/-- The member as it was read. -/
def finish (m : Member) (name : String) : Option m.type → Except Error m.type
  | some a => .ok a
  | none => match m.missing with
    | some a => .ok a
    | none => .error (.missingField name)

end Member

/-- A structure, member by member. -/
structure Derived (S : Type) where
  size : ℕ
  name : Fin size → String
  distinct : name.Injective := by decide
  member : Fin size → Member
  get : S → ∀ i, (member i).type
  build : (∀ i, (member i).type) → S
  build_get : ∀ s, build (get s) = s
  /-- `deny_unknown_fields`. -/
  deny : Bool := false

/-- All of these, or the first error. -/
def sequence : {n : ℕ} → {T : Fin n → Type} → (∀ i, Except Error (T i)) → Except Error (∀ i, T i)
  | 0, _, _ => .ok finZeroElim
  | _ + 1, _, x => do
    let first ← x 0
    let rest ← sequence fun i => x i.succ
    return Fin.cons first rest

theorem sequence_ok {n : ℕ} {T : Fin n → Type} (a : ∀ i, T i) :
    sequence (fun i => (.ok (a i) : Except Error (T i))) = .ok a := by
  induction n with
  | zero => exact congrArg Except.ok (funext fun i => i.elim0)
  | succ n ih =>
    rw [sequence]
    simp only [bind, Except.bind, pure, Except.pure]
    rw [ih fun i => a i.succ]
    exact congrArg Except.ok (Fin.cons_self_tail a)

theorem visitMap_nil {σ P : Type} (R : Scalars σ) (fields : List (Field σ P)) (deny : Bool)
    (p : P) : visitMap R fields deny p [] = .ok p := rfl

theorem visitMap_cons {σ P : Type} (R : Scalars σ) (fields : List (Field σ P)) (deny : Bool) (p : P)
    (entry : Value σ × Value σ) (entries : List (Value σ × Value σ)) :
    visitMap R fields deny p (entry :: entries) =
      visitEntry R fields deny p entry >>= fun q => visitMap R fields deny q entries :=
  List.foldlM_cons

theorem ok_bind {ε α β : Type} (a : α) (f : α → Except ε β) : (.ok a >>= f) = f a := rfl

namespace Derived

variable {S : Type} (d : Derived S)

/-- The members read so far. -/
abbrev Locals := ∀ i, Option (d.member i).type

def field (i : Fin d.size) : Field Scalar d.Locals :=
  .ofOption (d.name i) (fun p => p i) (fun p a => Function.update p i (some a))
    (d.member i).codec.read

def fields : List (Field Scalar d.Locals) := (List.finRange d.size).map d.field

/-- The entry of a member. -/
def entryOf (s : S) (i : Fin d.size) : Value Scalar × Value Scalar :=
  (key (d.name i), (d.member i).codec.write (d.get s i))

/-- The entries of a structure, in the order of its members. -/
def entries (s : S) : List (Value Scalar × Value Scalar) := (List.finRange d.size).map (d.entryOf s)

/-- Read a structure from the entries of a mapping. -/
def visit (entries : List (Value Scalar × Value Scalar)) : Except Error S := do
  let p ← visitMap scalars d.fields d.deny (fun _ => none) entries
  return d.build (← sequence fun i => (d.member i).finish (d.name i) (p i))

/-- Read a structure; one given as a sequence of its members is left out here. -/
def read (value : Value Scalar) : Except Error S := do d.visit (← scalars.entries value)

/-- The entries give the member of the structure. -/
def Gives (s : S) (entries : List (Value Scalar × Value Scalar)) (i : Fin d.size) : Prop :=
  ∃ value, valuesOf scalars (d.name i) entries = [value] ∧
    (d.member i).codec.read value = .ok (d.get s i)

/-- The entries show the structure: each member is there once and is read, or it is missing and its
default is right, and unknown keys are there only if they are allowed. -/
structure Shows (s : S) (entries : List (Value Scalar × Value Scalar)) : Prop where
  known : ∀ entry ∈ entries, Known scalars d.fields d.deny entry.1
  values : ∀ i, d.Gives s entries i ∨
    (valuesOf scalars (d.name i) entries = [] ∧ (d.member i).missing = some (d.get s i))

variable {d} {s : S} {entries : List (Value Scalar × Value Scalar)}

@[simp] theorem map_name_fields :
    d.fields.map Field.name = (List.finRange d.size).map fun i => d.name i := by
  rw [fields, List.map_map]
  rfl

theorem mem_names {name : String} :
    name ∈ d.fields.map Field.name ↔ ∃ i, d.name i = name := by
  simp

theorem get?_field (i : Fin d.size) :
    Keyed.get? Field.name d.fields (d.name i) = some (d.field i) := by
  refine Keyed.get?_of_mem (a := d.field i) ?_ (List.mem_map_of_mem (List.mem_finRange i))
  rw [map_name_fields]
  exact (List.nodup_finRange _).map d.distinct

/-- What is read of the members, over what was read before. -/
theorem visitMap_shown {p : d.Locals}
    (hknown : ∀ entry ∈ entries, Known scalars d.fields d.deny entry.1)
    (hvalues : ∀ i, valuesOf scalars (d.name i) entries = [] ∨
      d.Gives s entries i ∧ p i = none) :
    visitMap scalars d.fields d.deny p entries = .ok fun i =>
      if valuesOf scalars (d.name i) entries = [] then p i else some (d.get s i) := by
  induction entries generalizing p with
  | nil => rfl
  | cons entry entries ih =>
    obtain ⟨⟨name, hname, hdeny⟩, hrest⟩ := List.forall_mem_cons.1 hknown
    rw [visitMap_cons]
    by_cases hmem : name ∈ d.fields.map Field.name
    · obtain ⟨i, rfl⟩ := mem_names.1 hmem
      have hself : valuesOf scalars (d.name i) (entry :: entries) =
          entry.2 :: valuesOf scalars (d.name i) entries := by
        rw [valuesOf_cons, if_pos hname]
      obtain ⟨⟨value, hvalue, hread⟩, hunset⟩ : d.Gives s (entry :: entries) i ∧ p i = none := by
        refine (hvalues i).resolve_left ?_
        rw [hself]
        exact List.cons_ne_nil _ _
      obtain ⟨rfl, hnone⟩ := List.cons.inj (hself.symm.trans hvalue)
      have hother : ∀ j, j ≠ i → valuesOf scalars (d.name j) (entry :: entries) =
          valuesOf scalars (d.name j) entries :=
        fun j hne => valuesOf_cons_ne hname fun heq => hne (d.distinct heq)
      have hstep : visitEntry scalars d.fields d.deny p entry =
          .ok (Function.update p i (some (d.get s i))) := by
        rw [visitEntry, hname]
        simp only [get?_field, field, Field.ofOption, hunset, hread]
        rfl
      rw [hstep, ok_bind, ih hrest]
      · refine congrArg Except.ok (funext fun j => ?_)
        by_cases hj : j = i
        · subst hj
          rw [if_pos hnone, if_neg (hself ▸ List.cons_ne_nil _ _), Function.update_self]
        · rw [hother j hj, Function.update_of_ne hj]
      · intro j
        by_cases hj : j = i
        · exact .inl (hj ▸ hnone)
        · rw [← hother j hj, Function.update_of_ne hj, Gives, ← hother j hj]
          exact hvalues j
    -- an entry that is no member is passed over
    · have hother : ∀ i, valuesOf scalars (d.name i) (entry :: entries) =
          valuesOf scalars (d.name i) entries :=
        fun i => valuesOf_cons_ne hname fun heq => hmem (mem_names.2 ⟨i, heq⟩)
      have hnone : Keyed.get? Field.name d.fields name = none :=
        Keyed.get?_eq_none.2 fun field hfield heq => hmem (List.mem_map.2 ⟨field, hfield, heq⟩)
      have hstep : visitEntry scalars d.fields d.deny p entry = .ok p := by
        rw [visitEntry, hname]
        simp only [hnone]
        exact if_neg fun h => hmem (hdeny h)
      simp only [Gives, hother] at hvalues ⊢
      rw [hstep, ok_bind, ih hrest hvalues]

/-- **A structure is read from every mapping that shows it.** -/
theorem visit_of_shows (h : d.Shows s entries) : d.visit entries = .ok s := by
  have hvisit := visitMap_shown (p := fun _ => none) (s := s) h.known fun i =>
    (h.values i).elim (fun hi => .inr ⟨hi, rfl⟩) fun hi => .inl hi.1
  have hfinish : ∀ i, (d.member i).finish (d.name i)
      (if valuesOf scalars (d.name i) entries = [] then none else some (d.get s i)) =
        .ok (d.get s i) := by
    intro i
    rcases h.values i with ⟨value, hi, -⟩ | ⟨hi, hmissing⟩
    · rw [if_neg (hi ▸ List.cons_ne_nil _ _)]
      rfl
    · rw [if_pos hi, Member.finish, hmissing]
  rw [visit, hvisit]
  simp only [bind, Except.bind, pure, Except.pure, hfinish, sequence_ok, d.build_get]

/-! ### What shows a structure -/

theorem exists_of_mem_entries {entry : Value Scalar × Value Scalar} (h : entry ∈ d.entries s) :
    ∃ i, scalars.name? entry.1 = some (d.name i) := by
  obtain ⟨i, -, rfl⟩ := List.mem_map.1 h
  exact ⟨i, rfl⟩

theorem valuesOf_map_entryOf (s : S) (i : Fin d.size) {l : List (Fin d.size)} (hl : l.Nodup) :
    valuesOf scalars (d.name i) (l.map (d.entryOf s)) =
      if i ∈ l then [(d.member i).codec.write (d.get s i)] else [] := by
  induction l with
  | nil => rfl
  | cons j l ih =>
    obtain ⟨hj, hl⟩ := List.nodup_cons.1 hl
    rw [List.map_cons, valuesOf_cons, ih hl, entryOf, name?_key]
    by_cases hij : i = j
    · subst hij
      simp [hj]
    · rw [if_neg fun heq => hij (d.distinct (Option.some.inj heq)).symm]
      simp [hij]

/-- What is written shows the structure. -/
theorem shows_entries (s : S) : d.Shows s (d.entries s) where
  known entry hentry := by
    obtain ⟨i, hi⟩ := exists_of_mem_entries hentry
    exact ⟨_, hi, fun _ => mem_names.2 ⟨i, rfl⟩⟩
  values i := by
    rw [Gives, entries, valuesOf_map_entryOf s i (List.nodup_finRange _),
      if_pos (List.mem_finRange i)]
    exact .inl ⟨_, rfl, (d.member i).codec.read_write _⟩

/-- The entries may come in any order. -/
theorem Shows.perm (h : d.Shows s entries) {entries' : List (Value Scalar × Value Scalar)}
    (hperm : entries'.Perm entries) : d.Shows s entries' where
  known entry hentry := h.known entry (hperm.subset hentry)
  values i := by
    have hvalues : (valuesOf scalars (d.name i) entries').Perm
        (valuesOf scalars (d.name i) entries) := (hperm.filter _).map _
    rcases h.values i with ⟨value, hi, hread⟩ | ⟨hi, hmissing⟩
    · exact .inl ⟨value, List.perm_singleton.1 (hi ▸ hvalues), hread⟩
    · exact .inr ⟨List.perm_nil.1 (hi ▸ hvalues), hmissing⟩

/-- An entry that is no member may come with them. -/
theorem Shows.unknown (h : d.Shows s entries) (hdeny : d.deny = false) {name : String}
    (hname : ∀ i, d.name i ≠ name) (value : Value Scalar) :
    d.Shows s ((key name, value) :: entries) where
  known := List.forall_mem_cons.2
    ⟨⟨name, name?_key name, fun h => by rw [hdeny] at h; cases h⟩, h.known⟩
  values i := by
    rw [Gives, valuesOf_cons_ne (name?_key name) (hname i)]
    exact h.values i

/-- A member that has its default may be missing. -/
theorem Shows.dropped (h : d.Shows s entries) {i : Fin d.size}
    (hmissing : (d.member i).missing = some (d.get s i)) :
    d.Shows s (entries.filter fun entry => scalars.name? entry.1 ≠ some (d.name i)) where
  known entry hentry := h.known entry (List.mem_of_mem_filter hentry)
  values j := by
    by_cases hij : j = i
    · subst hij
      refine .inr ⟨?_, hmissing⟩
      simp [valuesOf, List.filter_filter]
    · have hsame : valuesOf scalars (d.name j) (entries.filter fun entry =>
          scalars.name? entry.1 ≠ some (d.name i)) =
            valuesOf scalars (d.name j) entries := by
        rw [valuesOf, valuesOf, List.filter_filter]
        refine congrArg _ (List.filter_congr fun entry _ => ?_)
        by_cases hname : scalars.name? entry.1 = some (d.name j)
        · have hne : d.name j ≠ d.name i := fun heq => hij (d.distinct heq)
          simp [hname, hne]
        · simp [hname]
      rw [Gives, hsame]
      exact h.values j

theorem named_entries (s : S) : Named (.map (d.entries s)) := by
  refine .map (fun entry hmem => ?_) fun entry hmem => ?_
  · obtain ⟨i, -, rfl⟩ := List.mem_map.1 hmem
    exact ⟨_, rfl⟩
  · obtain ⟨i, -, rfl⟩ := List.mem_map.1 hmem
    exact (d.member i).codec.named _

/-- The codec of a derived structure. -/
def codec (d : Derived S) : Codec Error S where
  write s := .map (d.entries s)
  read := d.read
  read_write s := visit_of_shows (d.shows_entries s)
  named := named_entries

end Derived

/-! ### Enums -/

namespace Derived

/-- No content. -/
def unit : Derived Unit where
  size := 0
  name := ![]
  member := finZeroElim
  get _ := finZeroElim
  build _ := ()
  build_get _ := rfl

/-- A content of one member. -/
def one (name : String) (m : Member) : Derived m.type where
  size := 1
  name := ![name]
  distinct := Function.injective_of_subsingleton _
  member
    | 0 => m
  get a
    | 0 => a
  build v := v 0
  build_get _ := rfl

theorem unit_untagged {tag : String} (i : Fin unit.size) : unit.name i ≠ tag := i.elim0

theorem one_untagged {name tag : String} {m : Member} (h : name ≠ tag) :
    ∀ i, (one name m).name i ≠ tag := by
  rintro ⟨i, hi⟩
  obtain rfl : i = 0 := Nat.lt_one_iff.1 hi
  exact h

end Derived

/-- A variant of an enum, with its content as a structure. -/
structure Variant (E : Type) where
  Content : Type
  derived : Derived Content
  wrap : Content → E

/-- An enum whose variant is named by the entry `tag`, beside the entries of its content. -/
structure Tagged (E : Type) where
  tag : String
  size : ℕ
  name : Fin size → String
  distinct : name.Injective := by decide
  variant : Fin size → Variant E
  untagged : ∀ i j, (variant i).derived.name j ≠ tag
  split : E → Σ i, (variant i).Content
  wrap_split : ∀ e, (variant (split e).1).wrap (split e).2 = e

/-- Why a document is no value of an enum. -/
inductive EnumError
  | content (error : Error)
  | unknownVariant (name : String) (expected : List String)
  deriving DecidableEq, Repr

namespace Tagged

variable {E : Type} (t : Tagged E)

/-- The entries of a variant with that content. -/
def entriesOf (i : Fin t.size) (a : (t.variant i).Content) : List (Value Scalar × Value Scalar) :=
  (key t.tag, key (t.name i)) :: (t.variant i).derived.entries a

def write (e : E) : Value Scalar := .map (t.entriesOf (t.split e).1 (t.split e).2)

/-- The variant of that name. -/
def variant? (name : String) : Option (Fin t.size) := Keyed.get? t.name (List.finRange t.size) name

/-- One entry: the tag, which names a variant, or one of the content. -/
def visitTagged (acc : Option (Fin t.size) × List (Value Scalar × Value Scalar))
    (entry : Value Scalar × Value Scalar) :
    Except EnumError (Option (Fin t.size) × List (Value Scalar × Value Scalar)) :=
  if scalars.name? entry.1 = some t.tag then
    if acc.1.isSome then .error (.content (.duplicateField t.tag))
    else match scalars.name? entry.2 with
      | none => .error (.content .invalidType)
      | some name => match t.variant? name with
        | none => .error (.unknownVariant name ((List.finRange t.size).map t.name))
        | some i => .ok (some i, acc.2)
  else .ok (acc.1, acc.2 ++ [entry])

/-- Read the variant from the tag, and its content from the other entries. -/
def read (value : Value Scalar) : Except EnumError E := do
  let entries ← (scalars.entries value).mapError .content
  let (found, content) ← entries.foldlM t.visitTagged (none, [])
  match found with
  | none => .error (.content (.missingField t.tag))
  | some i => (t.variant i).wrap <$> ((t.variant i).derived.visit content).mapError .content

/-- The entries of the content. -/
def untaggedOf (entries : List (Value Scalar × Value Scalar)) :
    List (Value Scalar × Value Scalar) :=
  entries.filter fun entry => scalars.name? entry.1 ≠ some t.tag

variable {t}

theorem variant?_name (i : Fin t.size) : t.variant? (t.name i) = some i :=
  Keyed.get?_of_mem ((List.nodup_finRange _).map t.distinct) (List.mem_finRange i)

theorem foldlM_visitTagged {entries : List (Value Scalar × Value Scalar)} {i : Fin t.size}
    {found : Option (Fin t.size)} {content : List (Value Scalar × Value Scalar)}
    (h : (valuesOf scalars t.tag entries = [] ∧ found = some i) ∨
      (valuesOf scalars t.tag entries = [key (t.name i)] ∧ found = none)) :
    entries.foldlM t.visitTagged (found, content) =
      .ok (some i, content ++ t.untaggedOf entries) := by
  induction entries generalizing found content with
  | nil =>
    rcases h with ⟨-, rfl⟩ | ⟨h, -⟩
    · simp [untaggedOf, pure, Except.pure]
    · cases h
  | cons entry entries ih =>
    rw [List.foldlM_cons]
    by_cases htag : scalars.name? entry.1 = some t.tag
    · rw [valuesOf_cons, if_pos htag] at h
      rcases h with ⟨h, -⟩ | ⟨h, rfl⟩
      · cases h
      · obtain ⟨hname, hrest⟩ := List.cons.inj h
        have hstep : t.visitTagged (none, content) entry = .ok (some i, content) := by
          rw [visitTagged, if_pos htag, hname, name?_key]
          simp only [variant?_name]
          rfl
        rw [hstep, ok_bind, ih (.inl ⟨hrest, rfl⟩)]
        simp [untaggedOf, htag]
    · rw [valuesOf_cons, if_neg htag] at h
      have hstep : t.visitTagged (found, content) entry = .ok (found, content ++ [entry]) :=
        if_neg htag
      rw [hstep, ok_bind, ih h]
      simp [untaggedOf, htag]

/-- **An enum is read from every mapping** that names a variant once and shows its content. -/
theorem read_of_shows {entries : List (Value Scalar × Value Scalar)} {i : Fin t.size}
    {a : (t.variant i).Content} (htag : valuesOf scalars t.tag entries = [key (t.name i)])
    (h : (t.variant i).derived.Shows a (t.untaggedOf entries)) :
    t.read (.map entries) = .ok ((t.variant i).wrap a) := by
  rw [read]
  simp only [Scalars.entries, Except.mapError, ok_bind, foldlM_visitTagged (.inr ⟨htag, rfl⟩),
    List.nil_append, Derived.visit_of_shows h]
  rfl

theorem untaggedOf_entriesOf (i : Fin t.size) (a : (t.variant i).Content) :
    t.untaggedOf (t.entriesOf i a) = (t.variant i).derived.entries a := by
  rw [untaggedOf, entriesOf, List.filter_cons_of_neg (by simp), List.filter_eq_self]
  intro entry hentry
  obtain ⟨j, hj⟩ := Derived.exists_of_mem_entries hentry
  simpa [hj] using t.untagged i j

theorem valuesOf_entriesOf (i : Fin t.size) (a : (t.variant i).Content) :
    valuesOf scalars t.tag (t.entriesOf i a) = [key (t.name i)] := by
  have hcontent := untaggedOf_entriesOf i a
  rw [entriesOf, valuesOf_cons, if_pos (name?_key _)]
  congr 1
  rw [valuesOf, List.map_eq_nil_iff, List.filter_eq_nil_iff]
  intro entry hentry
  rw [← hcontent] at hentry
  simpa using (List.mem_filter.1 hentry).2

/-- The codec of an enum. -/
def codec (t : Tagged E) : Codec EnumError E where
  write := t.write
  read := t.read
  read_write e := by
    have hread := read_of_shows (valuesOf_entriesOf (t.split e).1 (t.split e).2)
      (untaggedOf_entriesOf (t.split e).1 (t.split e).2 ▸ Derived.shows_entries (t.split e).2)
    rwa [t.wrap_split] at hread
  named e := by
    cases Derived.named_entries (t.split e).2 with
    | map hkeys hvalues =>
      exact .map (List.forall_mem_cons.2 ⟨⟨_, rfl⟩, hkeys⟩)
        (List.forall_mem_cons.2 ⟨.scalar _, hvalues⟩)

end Tagged

end Serde

end Roster
