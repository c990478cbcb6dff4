import Roster.Data.Keyed

/-!
# JSON values

The values of `serde_json`, and where in a value an object lies: `Json.Lies` says it with the list of
the objects around it, the innermost one first.
-/

namespace Roster

/-- A value.  The entries of an object are in the iteration order of its map; a number is kept as it
is written. -/
inductive Json
  | null
  | bool (b : Bool)
  | number (text : String)
  | string (text : String)
  | array (items : List Json)
  | object (entries : List (String × Json))

namespace Json

/-- The entries of an object. -/
abbrev Object := List (String × Json)

@[induction_eliminator]
theorem induct {P : Json → Prop} (null : P .null) (bool : ∀ b, P (.bool b))
    (number : ∀ text, P (.number text)) (string : ∀ text, P (.string text))
    (array : ∀ items, (∀ item ∈ items, P item) → P (.array items))
    (object : ∀ entries : Object, (∀ entry ∈ entries, P entry.2) → P (.object entries))
    (value : Json) : P value :=
  @Json.rec P (fun items => ∀ item ∈ items, P item) (fun entries => ∀ entry ∈ entries, P entry.2)
    (fun entry => P entry.2) null bool number string array object
    (fun _ h => absurd h List.not_mem_nil)
    (fun _ _ hitem hitems => List.forall_mem_cons.2 ⟨hitem, hitems⟩)
    (fun _ h => absurd h List.not_mem_nil)
    (fun _ _ hentry hentries => List.forall_mem_cons.2 ⟨hentry, hentries⟩)
    (fun _ _ h => h) value

/-- `object.get(key)`. -/
def get (object : Object) (key : String) : Option Json :=
  (Keyed.get? Prod.fst object key).map Prod.snd

/-- `as_str`. -/
def asStr : Json → Option String
  | .string text => some text
  | _ => none

/-- The field of that key, if it is a string. -/
def stringField (key : String) (object : Object) : Option String := (get object key).bind asStr

/-- The object lies in the value, at any depth, inside of the objects `around`. -/
inductive Lies (object : Object) : List Object → Json → Prop
  | here : Lies object [] (.object object)
  | item {around : List Object} {items : List Json} {item : Json} :
      item ∈ items → Lies object around item → Lies object around (.array items)
  | entry {around : List Object} {entries : Object} {entry : String × Json} :
      entry ∈ entries → Lies object around entry.2 →
        Lies object (around ++ [entries]) (.object entries)

variable {object : Object} {around : List Object}

theorem lies_array {items : List Json} :
    Lies object around (.array items) ↔ ∃ item ∈ items, Lies object around item := by
  constructor
  · rintro (_ | ⟨hitem, hlies⟩ | _)
    exact ⟨_, hitem, hlies⟩
  · rintro ⟨item, hitem, hlies⟩
    exact .item hitem hlies

theorem lies_object {entries : Object} :
    Lies object around (.object entries) ↔ (object = entries ∧ around = []) ∨
      ∃ entry ∈ entries, ∃ inner, Lies object inner entry.2 ∧ around = inner ++ [entries] := by
  constructor
  · rintro (_ | _ | ⟨hentry, hlies⟩)
    · exact .inl ⟨rfl, rfl⟩
    · exact .inr ⟨_, hentry, _, hlies, rfl⟩
  · rintro (⟨rfl, rfl⟩ | ⟨entry, hentry, inner, hlies, rfl⟩)
    · exact .here
    · exact .entry hentry hlies

end Json

end Roster
