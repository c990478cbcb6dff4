import Roster.Data.Serde
import Roster.Workflow.Spec

/-!
# Reading a workflow document

`parse` reads a workflow from YAML with the derived deserializers of `WorkflowSpec`, `JobSpec` and
`ResourceSpec`.  Only `ResourceSpec` denies unknown fields, so a misspelled key is rejected in a
resources mapping, and anywhere else only if the document is faulty in another way
(`parse_rejects_iff`): a job whose `depends_on` is misspelled is read as a job without dependencies.
-/

namespace Roster

open Serde

variable {σ ε : Type}

/-! ### Resources -/

/-- The fields of a `ResourceSpec` read so far. -/
structure ResourceFields where
  cpu : Option UInt32 := none
  memoryMb : Option UInt64 := none
  gpu : Option UInt32 := none
  vramMb : Option UInt64 := none

def resourceFields (R : Scalars σ) : List (Field σ ResourceFields) :=
  [.ofOption "cpu" ResourceFields.cpu (fun p a => { p with cpu := some a }) (Scalars.read R.asU32),
    .ofOption "memory_mb" ResourceFields.memoryMb (fun p a => { p with memoryMb := some a })
      (Scalars.read R.asU64),
    .ofOption "gpu" ResourceFields.gpu (fun p a => { p with gpu := some a }) (Scalars.read R.asU32),
    .ofOption "vram_mb" ResourceFields.vramMb (fun p a => { p with vramMb := some a })
      (Scalars.read R.asU64)]

/-- `default_cpu`. -/
def defaultCpu : UInt32 := 1

/-- `default_memory_mb`. -/
def defaultMemoryMb : UInt64 := 512

/-- `ResourceSpec::deserialize`; unknown fields are denied. -/
def readResourceSpec (R : Scalars σ) (value : Value σ) : Except Serde.Error ResourceSpec := do
  let p ← visitMap R (resourceFields R) true {} (← R.entries value)
  return {
    cpu := p.cpu.getD defaultCpu, memoryMb := p.memoryMb.getD defaultMemoryMb,
    gpu := p.gpu.getD 0, vramMb := p.vramMb.getD 0 }

/-! ### Jobs -/

/-- The fields of a `JobSpec` read so far. -/
structure JobFields where
  id : Option String := none
  command : Option String := none
  dependsOn : Option (List String) := none
  resources : Option ResourceSpec := none

def jobFields (R : Scalars σ) : List (Field σ JobFields) :=
  [.ofOption "id" JobFields.id (fun p a => { p with id := some a }) (Scalars.read R.asString),
    .ofOption "command" JobFields.command (fun p a => { p with command := some a })
      (Scalars.read R.asString),
    .ofOption "depends_on" JobFields.dependsOn (fun p a => { p with dependsOn := some a })
      (fun value => do (← R.items value).mapM (Scalars.read R.asString)),
    .ofOption "resources" JobFields.resources (fun p a => { p with resources := some a })
      (readResourceSpec R)]

/-- `JobSpec::deserialize`. -/
def readJobSpec (R : Scalars σ) (value : Value σ) : Except Serde.Error JobSpec := do
  let p ← visitMap R (jobFields R) false {} (← R.entries value)
  return {
    id := ← required "id" p.id, command := ← required "command" p.command,
    dependsOn := p.dependsOn.getD [], resources := p.resources.getD {} }

/-! ### Workflows -/

/-- The fields of a `WorkflowSpec` read so far. -/
structure WorkflowFields where
  name : Option String := none
  jobs : Option (List JobSpec) := none

def workflowFields (R : Scalars σ) : List (Field σ WorkflowFields) :=
  [.ofOption "name" WorkflowFields.name (fun p a => { p with name := some a })
      (Scalars.read R.asString),
    .ofOption "jobs" WorkflowFields.jobs (fun p a => { p with jobs := some a })
      (fun value => do (← R.items value).mapM (readJobSpec R))]

/-- `WorkflowSpec::deserialize`. -/
def readWorkflowSpec (R : Scalars σ) (value : Value σ) : Except Serde.Error WorkflowSpec := do
  let p ← visitMap R (workflowFields R) false {} (← R.entries value)
  return { name := ← required "name" p.name, jobs := ← required "jobs" p.jobs }

/-- Why a text is no workflow. -/
inductive ParseError (ε : Type)
  | yaml (error : ε)
  | document (error : Serde.Error)

/-- `parse`; `load` reads the text as a document. -/
def parse (load : String → Except ε (Value σ)) (R : Scalars σ) (yaml : String) :
    Except (ParseError ε) WorkflowSpec :=
  match load yaml with
  | .error error => .error (.yaml error)
  | .ok document => match readWorkflowSpec R document with
    | .error error => .error (.document error)
    | .ok spec => .ok spec

/-! ### What is readable -/

variable {R : Scalars σ} {value : Value σ}

def resourceNames : List String := ["cpu", "memory_mb", "gpu", "vram_mb"]

/-- The type of each field of a resources mapping. -/
def resourceReads (R : Scalars σ) (name : String) (value : Value σ) : Prop :=
  if name = "cpu" ∨ name = "gpu" then IsScalar R.asU32 value else IsScalar R.asU64 value

/-- A resources mapping, but for keys that are no field of it. -/
def IsResources (R : Scalars σ) (value : Value σ) : Prop :=
  IsStruct R resourceNames (resourceReads R) [] value

theorem resourceFields_lawful (R : Scalars σ) : Lawful (resourceFields R) (resourceReads R) := by
  refine ⟨by simp [resourceFields], fun field hfield p value => ?_,
    fun field hfield p value p' hset other hother => ?_⟩
  all_goals simp only [resourceFields, List.mem_cons, List.not_mem_nil, or_false] at hfield
  · rcases hfield with rfl | rfl | rfl | rfl <;>
      simp [succeeds_ofOption, succeeds_read, resourceReads]
  · simp only [resourceFields, List.mem_cons, List.not_mem_nil, or_false] at hother
    rcases hfield with rfl | rfl | rfl | rfl <;> obtain ⟨a, -, rfl⟩ := set_ofOption.1 hset <;>
      rcases hother with rfl | rfl | rfl | rfl <;> simp

theorem succeeds_readResourceSpec : Succeeds (readResourceSpec R value) ↔
    IsResources R value ∧ ¬ HasKeyBeyond R resourceNames value := by
  have hunset : ∀ field ∈ resourceFields R, field.isSet {} = false := by simp [resourceFields]
  have hvisit := (resourceFields_lawful R).visit_ok_iff R true hunset (List.nil_subset _) value
  simp only [readResourceSpec, succeeds_bind, succeeds_pure, and_true]
  simpa [resourceFields, IsResources, resourceNames] using hvisit

def jobSpecNames : List String := ["id", "command", "depends_on", "resources"]

/-- The type of each field of a job, given that of its resources. -/
def jobReads (R : Scalars σ) (name : String) (value : Value σ) : Prop :=
  if name = "depends_on" then IsSeq R (IsScalar R.asString) value
  else if name = "resources" then IsResources R value
  else IsScalar R.asString value

/-- A job, but for keys that are no field of it or of its resources. -/
def IsJobSpec (R : Scalars σ) (value : Value σ) : Prop :=
  IsStruct R jobSpecNames (jobReads R) ["id", "command"] value

/-- The resources of a job have only known keys. -/
def KnownResources (R : Scalars σ) (name : String) (value : Value σ) : Prop :=
  name = "resources" → ¬ HasKeyBeyond R resourceNames value

theorem jobFields_lawful (R : Scalars σ) : Lawful (jobFields R) fun name value =>
    jobReads R name value ∧ KnownResources R name value := by
  refine ⟨by simp [jobFields], fun field hfield p value => ?_,
    fun field hfield p value p' hset other hother => ?_⟩
  all_goals simp only [jobFields, List.mem_cons, List.not_mem_nil, or_false] at hfield
  · rcases hfield with rfl | rfl | rfl | rfl <;>
      simp [succeeds_ofOption, succeeds_read, succeeds_items, succeeds_readResourceSpec, jobReads,
        KnownResources]
  · simp only [jobFields, List.mem_cons, List.not_mem_nil, or_false] at hother
    rcases hfield with rfl | rfl | rfl | rfl <;> obtain ⟨a, -, rfl⟩ := set_ofOption.1 hset <;>
      rcases hother with rfl | rfl | rfl | rfl <;> simp

theorem succeeds_readJobSpec : Succeeds (readJobSpec R value) ↔ IsJobSpec R value ∧
    ∀ v ∈ valuesOf R "resources" (entriesOf R value), ¬ HasKeyBeyond R resourceNames v := by
  have hunset : ∀ field ∈ jobFields R, field.isSet {} = false := by simp [jobFields]
  have hrequired : ["id", "command"] ⊆ (jobFields R).map Field.name := by simp [jobFields]
  have hvisit := (jobFields_lawful R).visit_ok_iff R false hunset hrequired value
  rw [isStruct_and] at hvisit
  simp only [readJobSpec, succeeds_bind, succeeds_pure, and_true, exists_and_right, exists_required]
  simpa [jobFields, IsJobSpec, jobSpecNames, KnownResources] using hvisit

def workflowNames : List String := ["name", "jobs"]

/-- The type of each field of a workflow. -/
def workflowReads (R : Scalars σ) (name : String) (value : Value σ) : Prop :=
  if name = "jobs" then IsSeq R (IsJobSpec R) value else IsScalar R.asString value

/-- A workflow, but for keys that are no field of it, of a job or of a job's resources. -/
def IsWorkflowSpec (R : Scalars σ) (document : Value σ) : Prop :=
  IsStruct R workflowNames (workflowReads R) ["name", "jobs"] document

/-- The job mappings of a document. -/
def jobValues (R : Scalars σ) (document : Value σ) : List (Value σ) :=
  (valuesOf R "jobs" (entriesOf R document)).flatMap (itemsOf R)

/-- The resources mappings of a document. -/
def resourceValues (R : Scalars σ) (document : Value σ) : List (Value σ) :=
  (jobValues R document).flatMap fun job => valuesOf R "resources" (entriesOf R job)

/-- A key that is no declared field, at the top, in a job or in a resources mapping. -/
def Misspelled (R : Scalars σ) (document : Value σ) : Prop :=
  HasKeyBeyond R workflowNames document ∨
    (∃ job ∈ jobValues R document, HasKeyBeyond R jobSpecNames job) ∨
    ∃ resources ∈ resourceValues R document, HasKeyBeyond R resourceNames resources

/-- The jobs of a workflow have only known keys in their resources. -/
def KnownJobs (R : Scalars σ) (name : String) (value : Value σ) : Prop :=
  name = "jobs" → ∀ job ∈ itemsOf R value, ∀ v ∈ valuesOf R "resources" (entriesOf R job),
    ¬ HasKeyBeyond R resourceNames v

theorem workflowFields_lawful (R : Scalars σ) : Lawful (workflowFields R) fun name value =>
    workflowReads R name value ∧ KnownJobs R name value := by
  refine ⟨by simp [workflowFields], fun field hfield p value => ?_,
    fun field hfield p value p' hset other hother => ?_⟩
  all_goals simp only [workflowFields, List.mem_cons, List.not_mem_nil, or_false] at hfield
  · rcases hfield with rfl | rfl
    · simp [succeeds_ofOption, succeeds_read, workflowReads, KnownJobs]
    · simp only [succeeds_ofOption, succeeds_items, succeeds_readJobSpec, isSeq_and, workflowReads,
        KnownJobs, name_ofOption, if_true, forall_const]
  · simp only [workflowFields, List.mem_cons, List.not_mem_nil, or_false] at hother
    rcases hfield with rfl | rfl <;> obtain ⟨a, -, rfl⟩ := set_ofOption.1 hset <;>
      rcases hother with rfl | rfl <;> simp

theorem succeeds_readWorkflowSpec : Succeeds (readWorkflowSpec R value) ↔ IsWorkflowSpec R value ∧
    ∀ v ∈ resourceValues R value, ¬ HasKeyBeyond R resourceNames v := by
  have hunset : ∀ field ∈ workflowFields R, field.isSet {} = false := by simp [workflowFields]
  have hrequired : ["name", "jobs"] ⊆ (workflowFields R).map Field.name := by simp [workflowFields]
  have hvisit := (workflowFields_lawful R).visit_ok_iff R false hunset hrequired value
  rw [isStruct_and] at hvisit
  have hknown : (∀ name ∈ workflowNames, ∀ v ∈ valuesOf R name (entriesOf R value),
      KnownJobs R name v) ↔ ∀ v ∈ resourceValues R value, ¬ HasKeyBeyond R resourceNames v := by
    simp only [workflowNames, KnownJobs, List.mem_cons, List.not_mem_nil, or_false,
      forall_eq_or_imp, forall_eq, resourceValues, jobValues, List.mem_flatMap]
    grind
  rw [← hknown]
  simp only [readWorkflowSpec, succeeds_bind, succeeds_pure, and_true, exists_and_right,
    exists_required]
  simpa [workflowFields, IsWorkflowSpec, workflowNames] using hvisit

theorem parse_error_iff {load : String → Except ε (Value σ)} {yaml : String} {document : Value σ}
    (hload : load yaml = .ok document) :
    (∃ e, parse load R yaml = .error e) ↔ ¬ Succeeds (readWorkflowSpec R document) := by
  unfold parse
  cases hread : readWorkflowSpec R document <;> simp [hload, hread]

/-- **When a misspelled key is noticed**: exactly if one is in a resources mapping, or the document
is no workflow even without the keys that are no declared fields; other keys change nothing. -/
theorem misspelled_rejected_iff (load : String → Except ε (Value σ)) (R : Scalars σ) (yaml : String)
    (document : Value σ) (hload : load yaml = .ok document) :
    (∃ e, parse load R yaml = .error e) ↔
      (∃ v ∈ resourceValues R document, HasKeyBeyond R resourceNames v) ∨
        ¬ IsWorkflowSpec R document := by
  rw [parse_error_iff hload, succeeds_readWorkflowSpec, not_and_or, or_comm]
  push Not
  rfl

/-! ### A misspelled dependency -/

/-- Plain texts, with numbers in decimal. -/
def plainScalars : Scalars String where
  asString := some
  asU32 s := s.toNat?.map UInt32.ofNat
  asU64 s := s.toNat?.map UInt64.ofNat
  isEmpty s := s == ""

/-- Two jobs, where the second one names the first under a misspelled `depends_on`. -/
def misspelledDocument : Value String :=
  .map [(.scalar "name", .scalar "release"),
    (.scalar "jobs", .seq [
      .map [(.scalar "id", .scalar "build"), (.scalar "command", .scalar "make")],
      .map [(.scalar "id", .scalar "publish"), (.scalar "command", .scalar "make publish"),
        (.scalar "dependson", .seq [.scalar "build"])]])]

theorem misspelledDocument_misspelled : Misspelled plainScalars misspelledDocument := by
  refine .inr (.inl ⟨.map [(.scalar "id", .scalar "publish"),
    (.scalar "command", .scalar "make publish"), (.scalar "dependson", .seq [.scalar "build"])],
    by simp [jobValues, valuesOf, entriesOf, itemsOf, misspelledDocument, Scalars.entries,
      Scalars.items, Scalars.name?, plainScalars, Except.toOption], ?_⟩)
  refine ⟨(.scalar "dependson", .seq [.scalar "build"]), by simp [entriesOf, Scalars.entries,
    Except.toOption], fun name hname => ?_⟩
  obtain rfl : "dependson" = name := by simpa [Scalars.name?, plainScalars] using hname
  decide

/-- A misspelled `depends_on` is dropped, and the job starts without waiting. -/
theorem misspelled_accepted :
    Misspelled plainScalars misspelledDocument ∧
      parse (fun _ => (.ok misspelledDocument : Except Unit (Value String))) plainScalars "" = .ok {
        name := "release", jobs := [
          { id := "build", command := "make", dependsOn := [], resources := {} },
          { id := "publish", command := "make publish", dependsOn := [], resources := {} }] } :=
  ⟨misspelledDocument_misspelled, rfl⟩

theorem misspelledDocument_rejected_iff :
    (∃ e, parse (fun _ => (.ok misspelledDocument : Except Unit (Value String))) plainScalars "" =
      .error e) ↔
      (∃ v ∈ resourceValues plainScalars misspelledDocument,
        HasKeyBeyond plainScalars resourceNames v) ∨
        ¬ IsWorkflowSpec plainScalars misspelledDocument :=
  misspelled_rejected_iff _ _ _ _ rfl

end Roster
