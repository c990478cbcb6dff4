import Roster.Data.Ascii
import Roster.Data.Collect
import Roster.Data.Json

/-!
# The test of a card

`roster qualify` tests a card with its kernel and, where DCGM is installed, with its diagnostic.
`failed_tests` walks through the whole report of that, whose layout changes between versions, and
names every failure after the nearest `name` (`failedTests_exact`).  So a card passes only if no
object of the report has the status (`test_passes_iff`).

What the kernel test finds, and what `dcgmi` is and prints, are parameters.
-/

namespace Roster

open Json (Object stringField Lies)

namespace Qualify

mutual

/-- `walk`. -/
def walk : Json → Option String → List String → List String
  | .object object, name, failed =>
    let name := (stringField "name" object).or name
    let status := stringField "status" object
    let failed :=
      if status.any fun status => eqIgnoreAsciiCase status "fail" then
        pushNew (name.getD "unnamed test") failed
      else failed
    walkValues object name failed
  | .array items, name, failed => walkItems items name failed
  | .null, _, failed => failed
  | .bool _, _, failed => failed
  | .number _, _, failed => failed
  | .string _, _, failed => failed

def walkValues : List (String × Json) → Option String → List String → List String
  | [], _, failed => failed
  | (_, child) :: entries, name, failed => walkValues entries name (walk child name failed)

def walkItems : List Json → Option String → List String → List String
  | [], _, failed => failed
  | child :: items, name, failed => walkItems items name (walk child name failed)

end

/-- `failed_tests`. -/
def failedTests (report : Json) : List String := walk report none []

/-- What a run of `dcgmi diag` leaves: its output, whether it succeeded and how its status reads. -/
structure DiagOutput where
  stdout : List UInt8
  success : Bool
  status : String

/-- `dcgm_diag`, where `fromSlice` is `serde_json::from_slice` and `diag` the run at a level. -/
def dcgmDiag (fromSlice : List UInt8 → Option Json) (diag : ℕ → Except String DiagOutput)
    (level : ℕ) : Except String Unit :=
  match diag level with
  | .error error => .error ("dcgmi: " ++ error)
  | .ok output =>
    let report := (fromSlice output.stdout).getD .null
    let failed := failedTests report
    if !failed.isEmpty then
      .error ("DCGM level " ++ toString level ++ " failed: " ++ ", ".intercalate failed)
    else if !output.success then
      .error ("DCGM level " ++ toString level ++ " exited with " ++ output.status)
    else .ok ()

/-- How the tests that ran are named. -/
def passedText (passed : List String) : String :=
  if passed.isEmpty then "no test available here" else " and ".intercalate passed ++ " passed"

/-- `test`: `kernelTest` is `None` without a driver, `diag` without a card that DCGM lists. -/
def test (fromSlice : List UInt8 → Option Json) (kernelTest : Option (Except String Unit))
    (diag : Option (ℕ → Except String DiagOutput)) (retest : Bool) : Except String String :=
  match kernelTest with
  | some (.error reason) => .error ("kernel test: " ++ reason)
  | _ =>
    let passed := if kernelTest.isSome then ["kernel test"] else []
    let level := if retest then 2 else 1
    match diag with
    | none => .ok (passedText passed)
    | some diag =>
      match dcgmDiag fromSlice diag level with
      | .error reason => .error reason
      | .ok () => .ok (passedText (passed ++ ["DCGM level " ++ toString level]))

/-- The name of the nearest of these objects that has one. -/
def nearestName (objects : List Object) : Option String := objects.findSome? (stringField "name")

/-- The object reports a failure. -/
def Fails (object : Object) : Prop :=
  ∃ status, stringField "status" object = some status ∧ InAnyCase "fail" status

/-- Some object in the value reports a failure and has that name, where `inherited` is the name
around the value. -/
def FailsNamed (report : Json) (inherited : Option String) (name : String) : Prop :=
  ∃ object around, Lies object around report ∧ Fails object ∧
    name = ((nearestName (object :: around)).or inherited).getD "unnamed test"

/-! ### The walk -/

theorem fails_iff {object : Object} : Fails object ↔
    (stringField "status" object).any (fun status => eqIgnoreAsciiCase status "fail") = true := by
  have hlower : ∀ l ∈ "fail".toList, l.isLower := by simp
  rw [Fails, Option.any_eq_true]
  simp only [eqIgnoreAsciiCase_iff hlower]

theorem walkValues_eq (entries : Object) (name : Option String) (failed : List String) :
    walkValues entries name failed =
      entries.foldl (fun failed entry => walk entry.2 name failed) failed := by
  induction entries generalizing failed with
  | nil => rfl
  | cons entry entries ih => rw [walkValues, ih, List.foldl_cons]

theorem walkItems_eq (items : List Json) (name : Option String) (failed : List String) :
    walkItems items name failed =
      items.foldl (fun failed child => walk child name failed) failed := by
  induction items generalizing failed with
  | nil => rfl
  | cons child items ih => rw [walkItems, ih, List.foldl_cons]

theorem walk_array (items : List Json) (name : Option String) : walk (.array items) name =
    fun failed => items.foldl (fun failed child => walk child name failed) failed := by
  funext failed
  rw [walk, walkItems_eq]

theorem walk_object (object : Object) (name : Option String) : walk (.object object) name =
    fun failed => object.foldl
      (fun failed entry => walk entry.2 ((stringField "name" object).or name) failed)
      (if (stringField "status" object).any fun status => eqIgnoreAsciiCase status "fail" then
        pushNew (((stringField "name" object).or name).getD "unnamed test") failed
      else failed) := by
  funext failed
  rw [walk, walkValues_eq]

/-! ### The failures -/

@[simp] theorem nearestName_singleton (object : Object) :
    nearestName [object] = stringField "name" object := by
  rw [nearestName, List.findSome?_singleton]

theorem nearestName_append (objects : List Object) (object : Object) :
    nearestName (objects ++ [object]) = (nearestName objects).or (stringField "name" object) := by
  rw [nearestName, List.findSome?_append, List.findSome?_singleton]
  rfl

theorem failsNamed_array {items : List Json} {inherited : Option String} {name : String} :
    FailsNamed (.array items) inherited name ↔ ∃ item ∈ items, FailsNamed item inherited name := by
  simp only [FailsNamed, Json.lies_array]
  constructor
  · rintro ⟨object, around, ⟨item, hitem, hlies⟩, hfails, hname⟩
    exact ⟨item, hitem, object, around, hlies, hfails, hname⟩
  · rintro ⟨item, hitem, object, around, hlies, hfails, hname⟩
    exact ⟨object, around, ⟨item, hitem, hlies⟩, hfails, hname⟩

/-- An object hands its name down. -/
theorem failsNamed_object {entries : Object} {inherited : Option String} {name : String} :
    FailsNamed (.object entries) inherited name ↔
      (Fails entries ∧ name = ((stringField "name" entries).or inherited).getD "unnamed test") ∨
        ∃ entry ∈ entries,
          FailsNamed entry.2 ((stringField "name" entries).or inherited) name := by
  simp only [FailsNamed, Json.lies_object]
  constructor
  · rintro ⟨object, around, ⟨rfl, rfl⟩ | ⟨entry, hentry, inner, hlies, rfl⟩, hfails, hname⟩
    · rw [nearestName_singleton] at hname
      exact .inl ⟨hfails, hname⟩
    · rw [← List.cons_append, nearestName_append, Option.or_assoc] at hname
      exact .inr ⟨entry, hentry, object, inner, hlies, hfails, hname⟩
  · rintro (⟨hfails, hname⟩ | ⟨entry, hentry, object, inner, hlies, hfails, hname⟩)
    · refine ⟨entries, [], .inl ⟨rfl, rfl⟩, hfails, ?_⟩
      rw [nearestName_singleton, hname]
    · refine ⟨object, inner ++ [entries], .inr ⟨entry, hentry, inner, hlies, rfl⟩, hfails, ?_⟩
      rw [← List.cons_append, nearestName_append, Option.or_assoc, hname]

/-- A value that is no object and no array has no failure. -/
theorem collects_leaf {report : Json} {inherited : Option String}
    (hwalk : walk report inherited = fun failed => failed)
    (hleaf : ∀ object around, ¬ Lies object around report) :
    Collects (walk report inherited) (FailsNamed report inherited) := by
  rw [hwalk]
  refine Collects.nothing.congr fun name => ⟨False.elim, ?_⟩
  rintro ⟨object, around, hlies, -⟩
  exact hleaf object around hlies

/-- The walk adds the names of the failures in a value, each once. -/
theorem collects_walk (report : Json) (inherited : Option String) :
    Collects (walk report inherited) (FailsNamed report inherited) := by
  induction report generalizing inherited with
  | null => exact collects_leaf rfl nofun
  | bool b => exact collects_leaf rfl nofun
  | number text => exact collects_leaf rfl nofun
  | string text => exact collects_leaf rfl nofun
  | array items ih =>
    rw [walk_array]
    exact (Collects.foldl fun child hchild => ih child hchild inherited).congr
      fun name => failsNamed_array.symm
  | object entries ih =>
    rw [walk_object]
    have hown := (Collects.pushNew (((stringField "name" entries).or inherited).getD
      "unnamed test")).ite ((stringField "status" entries).any fun status =>
        eqIgnoreAsciiCase status "fail")
    have hchildren := Collects.foldl fun (entry : String × Json) hentry =>
      ih entry hentry ((stringField "name" entries).or inherited)
    refine (hown.trans hchildren).congr fun name => ?_
    rw [failsNamed_object, fails_iff]

theorem mem_failedTests {report : Json} {name : String} : name ∈ failedTests report ↔
    ∃ object around, Lies object around report ∧ Fails object ∧
      name = (nearestName (object :: around)).getD "unnamed test" := by
  rw [failedTests, (collects_walk report none).mem, or_iff_right List.not_mem_nil]
  simp only [FailsNamed, Option.or_none]

theorem failedTests_eq_nil {report : Json} :
    failedTests report = [] ↔ ∀ object around, Lies object around report → ¬ Fails object := by
  rw [List.eq_nil_iff_forall_not_mem]
  constructor
  · intro hnone object around hlies hfails
    exact hnone _ (mem_failedTests.2 ⟨object, around, hlies, hfails, rfl⟩)
  · intro hnone name hname
    obtain ⟨object, around, hlies, hfails, -⟩ := mem_failedTests.1 hname
    exact hnone object around hlies hfails

/-- **Every failure is found**, whatever the layout of the report: there is one in the list if and
only if some object at any depth has the status, none is there twice, and the names are those of
these objects. -/
theorem failedTests_exact (report : Json) :
    (failedTests report ≠ [] ↔ ∃ object around, Lies object around report ∧ Fails object) ∧
      (failedTests report).Nodup ∧
      ∀ name, name ∈ failedTests report ↔ ∃ object around, Lies object around report ∧
        Fails object ∧ name = (nearestName (object :: around)).getD "unnamed test" := by
  refine ⟨?_, (collects_walk report none).nodup List.nodup_nil, fun name => mem_failedTests⟩
  rw [Ne, failedTests_eq_nil]
  push Not
  rfl

/-- A name is handed down over an object without one, and found in any case. -/
example : failedTests (.object [("name", .string "Memory"), ("tests", .array
    [.object [("results", .array [.object [("status", .string "FAIL")]])],
      .object [("name", .null), ("status", .string "fail")],
      .object [("name", .string "PCIe"), ("status", .string "Fail")]])]) = ["Memory", "PCIe"] := by
  decide

/-! ### The card -/

/-- The diagnostic passes when it ran to its end and nothing in its report fails. -/
theorem dcgmDiag_passes_iff {fromSlice : List UInt8 → Option Json}
    {diag : ℕ → Except String DiagOutput} {level : ℕ} :
    dcgmDiag fromSlice diag level = .ok () ↔ ∃ output, diag level = .ok output ∧
      output.success = true ∧ ∀ object around,
        Lies object around ((fromSlice output.stdout).getD .null) → ¬ Fails object := by
  unfold dcgmDiag
  cases diag level with
  | error error => simp
  | ok output =>
    simp only [Except.ok.injEq, exists_eq_left', ← failedTests_eq_nil]
    by_cases hfailed : failedTests ((fromSlice output.stdout).getD .null) = []
    · cases output.success <;> simp [hfailed]
    · simp [hfailed]

/-- **When a card passes**: its kernel test found nothing, and DCGM, where it lists the card, ran to
its end without an object in its report that fails.  A retest asks for the longer level. -/
theorem test_passes_iff {fromSlice : List UInt8 → Option Json}
    {kernelTest : Option (Except String Unit)} {diag : Option (ℕ → Except String DiagOutput)}
    {retest : Bool} :
    (∃ tests, test fromSlice kernelTest diag retest = .ok tests) ↔
      (∀ reason, kernelTest ≠ some (.error reason)) ∧
        ∀ run, diag = some run → ∃ output, run (if retest then 2 else 1) = .ok output ∧
          output.success = true ∧ ∀ object around,
            Lies object around ((fromSlice output.stdout).getD .null) → ¬ Fails object := by
  simp only [← dcgmDiag_passes_iff]
  cases diag with
  | none => rcases kernelTest with _ | reason | _ <;> simp [test]
  | some run =>
    cases hrun : dcgmDiag fromSlice run (if retest then 2 else 1) <;>
      rcases kernelTest with _ | reason | _ <;> simp [test, hrun]

end Qualify

end Roster
