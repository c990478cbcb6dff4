import Mathlib.Data.Set.Defs
import Roster.Data.PrefixCode
import Roster.Data.Utf8
import Roster.Executor.Files

/-!
# The names of a job's scope and exit file

The scope of a job is named after its run and its id, with the bytes that a unit name can't hold
escaped, so that two jobs of a run have different scopes (`unitName_inj`).  The exit file is named
by the path that the id makes, and different ids keep it apart only when they are placed apart
(`jobNames_apart`).

The `-` between the run and the job is not escaped in either.  What tells the jobs of two runs apart
is the form of the ids that the runs get (`RunId`): those of one form have one length, and
`qualify-` starts like no UUID does (`prefixCode_text`, `unitName_keepsApart`).
-/

namespace Roster

/-- `(run_id, job_id)`. -/
abbrev Key := String × String

/-- Bytes a unit name can't hold become `_XX`. -/
def escapeByte (byte : UInt8) : List Char :=
  let c := Char.ofUInt8 byte
  if c.isAlphanum ∨ c = '-' then [c]
  else ['_', Nat.digitChar (byte.toNat / 16), Nat.digitChar (byte.toNat % 16)]

def escape (id : String) : String := String.ofList (id.toUTF8.data.toList.flatMap escapeByte)

/-- The scope of a job, the same name for the same job on every call. -/
def unitName (runId jobId : String) : String :=
  "roster-" ++ escape runId ++ "-" ++ escape jobId

/-- The same for a job whose id is any bytes. -/
def unitNameOf (runId : String) (jobId : List UInt8) : String :=
  "roster-" ++ escape runId ++ "-" ++ String.ofList (jobId.flatMap escapeByte)

/-- A name with characters that a unit name can hold. -/
def IsUnitText (name : String) : Prop := ∀ c ∈ name.toList, c.isAlphanum ∨ c = '-' ∨ c = '_'

def hexDigits : List Char := "0123456789abcdefABCDEF".toList

/-- `Uuid`, by the digits it is written with. -/
@[ext] structure Uuid where
  digits : List Char
  length : digits.length = 32
  hex : ∀ c ∈ digits, c ∈ hexDigits

/-- `simple`. -/
def Uuid.simple (uuid : Uuid) : List Char := uuid.digits

/-- How a `Uuid` is displayed: in groups of 8, 4, 4, 4 and 12 digits. -/
def Uuid.hyphenated (uuid : Uuid) : List Char :=
  uuid.digits.take 8 ++ '-' :: ((uuid.digits.drop 8).take 4 ++
    '-' :: ((uuid.digits.drop 12).take 4 ++ '-' :: ((uuid.digits.drop 16).take 4 ++
      '-' :: uuid.digits.drop 20)))

/-- The id of a run: `handle_submit` displays a `Uuid`, `start_qualification` puts its name in
front of one. -/
inductive RunId
  | submitted (uuid : Uuid)
  | qualification (uuid : Uuid)

def RunId.text : RunId → String
  | .submitted uuid => String.ofList uuid.hyphenated
  | .qualification uuid => "qualify-" ++ String.ofList uuid.simple

/-- The scope and the exit file of each job. -/
structure Names where
  unit : Key → String
  exitFile : Key → Path.Dir

/-- The names the code gives them. -/
def jobNames (cwd : Path.Dir) (home : String) : Names where
  unit key := unitName key.1 key.2
  exitFile key := exitLocation cwd home key.1 key.2

/-- The jobs have scopes and exit files of their own. -/
def Names.Apart (names : Names) (keys : Set Key) : Prop :=
  ∀ key ∈ keys, ∀ other ∈ keys, key ≠ other →
    names.unit key ≠ names.unit other ∧ names.exitFile key ≠ names.exitFile other

/-! ### Escaping -/

theorem ofUInt8_inj {byte other : UInt8} (h : Char.ofUInt8 byte = Char.ofUInt8 other) :
    byte = other := by
  have hnat : byte.toUInt32.toNat = other.toUInt32.toNat := congrArg Char.toNat h
  rw [UInt8.toNat_toUInt32, UInt8.toNat_toUInt32] at hnat
  exact UInt8.toNat_inj.1 hnat

theorem digitChar_inj {m n : ℕ} (hm : m < 16) (hn : n < 16)
    (h : Nat.digitChar m = Nat.digitChar n) : m = n := by
  have hfin : ∀ m n : Fin 16, Nat.digitChar m = Nat.digitChar n → m = n := by decide
  exact congrArg Fin.val (hfin ⟨m, hm⟩ ⟨n, hn⟩ h)

/-- A byte that stands for itself does not look like the escape of one. -/
theorem ne_underscore {c : Char} (h : c.isAlphanum ∨ c = '-') : c ≠ '_' := by
  rintro rfl
  revert h
  decide

/-- The first byte of an id can be read back from its escaped text. -/
theorem prefixCode_escapeByte : PrefixCode escapeByte := by
  intro byte other rest rest' h
  have hdigits : ∀ byte : UInt8, byte.toNat / 16 < 16 ∧ byte.toNat % 16 < 16 := fun byte =>
    ⟨by have := byte.toNat_lt; omega, Nat.mod_lt _ (by decide)⟩
  unfold escapeByte at h
  simp only at h
  split_ifs at h with hplain hplain' hplain'
  · obtain ⟨hchar, hrest⟩ := List.cons.inj h
    exact ⟨ofUInt8_inj hchar, hrest⟩
  · exact absurd (List.cons.inj h).1 (ne_underscore hplain)
  · exact absurd (List.cons.inj h).1.symm (ne_underscore hplain')
  · simp only [List.cons_append, List.nil_append, List.cons.injEq, true_and] at h
    obtain ⟨hhigh, hlow, hrest⟩ := h
    have hhigh := digitChar_inj (hdigits byte).1 (hdigits other).1 hhigh
    have hlow := digitChar_inj (hdigits byte).2 (hdigits other).2 hlow
    exact ⟨UInt8.toNat_inj.1 (by omega), hrest⟩

theorem escapeByte_ne_nil (byte : UInt8) : escapeByte byte ≠ [] := by
  unfold escapeByte
  simp only
  split_ifs <;> exact List.cons_ne_nil _ _

theorem flatMap_escapeByte_inj {bytes others : List UInt8}
    (h : bytes.flatMap escapeByte = others.flatMap escapeByte) : bytes = others :=
  prefixCode_escapeByte.flatMap_injective escapeByte_ne_nil h

theorem escape_inj {id other : String} (h : escape id = escape other) : id = other := by
  have hlist := flatMap_escapeByte_inj (String.ofList_injective h)
  exact String.toByteArray_inj.1 (ByteArray.ext (Array.toList_inj.1 hlist))

theorem toNat_lt_of_plain {c : Char} (h : c.isAlphanum ∨ c = '-') : c.toNat < 128 := by
  rcases h with h | rfl
  · have hle : c.val ≤ 'z'.val := by
      rcases Bool.or_eq_true_iff.1 h with halpha | hdigit
      · rcases Bool.or_eq_true_iff.1 halpha with hupper | hlower
        · exact UInt32.le_trans (of_decide_eq_true hupper).2 (by decide)
        · exact of_decide_eq_true (Bool.and_eq_true_iff.1 hlower).2
      · exact UInt32.le_trans (of_decide_eq_true (Bool.and_eq_true_iff.1 hdigit).2) (by decide)
    exact Nat.lt_of_le_of_lt (UInt32.le_iff_toNat_le.1 hle) (by decide)
  · decide

/-- A character that a unit name can hold is one byte, which stands for itself. -/
theorem flatMap_escapeByte_of_plain {c : Char} (h : c.isAlphanum ∨ c = '-') :
    (String.utf8EncodeChar c).flatMap escapeByte = [c] := by
  have hlt := toNat_lt_of_plain h
  have hsize : c.utf8Size = 1 := by
    rw [Char.utf8Size_eq_one_iff, UInt32.le_iff_toNat_le]
    exact Nat.le_of_lt_succ hlt
  rw [String.utf8EncodeChar_eq_singleton hsize, List.flatMap_singleton, escapeByte,
    Utf8.ofUInt8_toUInt8 hsize]
  exact if_pos h

theorem toUTF8_eq_encode (id : String) : id.toUTF8.data.toList = Utf8.encode id.toList := by
  have hbytes : id.toUTF8 = id.toList.utf8Encode := by
    rw [← String.toByteArray_ofList, String.ofList_toList]
    rfl
  rw [hbytes, List.utf8Encode, List.data_toByteArray]
  rfl

/-- An id of such characters is not changed. -/
theorem escape_eq_self {id : String} (h : ∀ c ∈ id.toList, c.isAlphanum ∨ c = '-') :
    escape id = id := by
  have hplain : (Utf8.encode id.toList).flatMap escapeByte = id.toList := by
    generalize id.toList = text at h
    induction text with
    | nil => rfl
    | cons c text ih =>
      obtain ⟨hc, htext⟩ := List.forall_mem_cons.1 h
      rw [Utf8.encode_cons, List.flatMap_append, flatMap_escapeByte_of_plain hc, ih htext]
      rfl
  rw [escape, toUTF8_eq_encode, hplain, String.ofList_toList]

theorem isUnitText_escapeByte (byte : UInt8) :
    ∀ c ∈ escapeByte byte, c.isAlphanum ∨ c = '-' ∨ c = '_' := by
  have hdigit : ∀ n : Fin 16, (Nat.digitChar n).isAlphanum := by decide
  unfold escapeByte
  simp only
  split_ifs with hplain
  · simpa using hplain.imp_right Or.inl
  · have hhigh := hdigit ⟨byte.toNat / 16, by have := byte.toNat_lt; omega⟩
    have hlow := hdigit ⟨byte.toNat % 16, Nat.mod_lt _ (by decide)⟩
    simp [hhigh, hlow]

/-- Two jobs of a run have different scopes. -/
theorem unitName_inj {runId jobId other : String}
    (h : unitName runId jobId = unitName runId other) : jobId = other := by
  refine escape_inj (String.toList_inj.1 ?_)
  have hlist := congrArg String.toList h
  simpa [unitName] using hlist

/-! ### The ids of runs -/

theorem isAlphanum_of_hexDigit : ∀ c ∈ hexDigits, c.isAlphanum = true ∧ c ≠ '-' := by
  have hall : (hexDigits.all fun c => c.isAlphanum && c != '-') = true := by decide
  simpa only [List.all_eq_true, Bool.and_eq_true, bne_iff_ne] using hall

theorem Uuid.length_hyphenated (uuid : Uuid) : uuid.hyphenated.length = 36 := by
  simp [Uuid.hyphenated, uuid.length]

/-- The digits are what is not a hyphen. -/
theorem Uuid.filter_hyphenated (uuid : Uuid) :
    (uuid.hyphenated.filter fun c => decide (c ≠ '-')) = uuid.digits := by
  have hkeep : ∀ part : List Char, part ⊆ uuid.digits →
      (part.filter fun c => decide (c ≠ '-')) = part := fun part hpart =>
    List.filter_eq_self.2 fun c hc =>
      decide_eq_true (isAlphanum_of_hexDigit c (uuid.hex c (hpart hc))).2
  have hgroup : ∀ k n, (uuid.digits.drop k).take n ⊆ uuid.digits := fun k n _ hc =>
    List.drop_subset k _ (List.take_subset n _ hc)
  have hhyphen : ∀ rest : List Char, (('-' :: rest).filter fun c => decide (c ≠ '-')) =
      rest.filter fun c => decide (c ≠ '-') := fun _ => List.filter_cons_of_neg (by decide)
  simp only [Uuid.hyphenated, List.filter_append, hhyphen]
  rw [hkeep _ (List.take_subset _ _), hkeep _ (hgroup 8 4), hkeep _ (hgroup 12 4),
    hkeep _ (hgroup 16 4), hkeep _ (List.drop_subset _ _)]
  -- the groups are the digits again
  have hjoin : ∀ k n, (uuid.digits.drop k).take n ++ uuid.digits.drop (k + n) =
      uuid.digits.drop k := fun k n => by
    rw [← List.drop_drop, List.take_append_drop]
  rw [hjoin 16 4, hjoin 12 4, hjoin 8 4, List.take_append_drop]

theorem Uuid.hyphenated_injective : Function.Injective Uuid.hyphenated := fun uuid other h => by
  rw [Uuid.ext_iff, ← uuid.filter_hyphenated, ← other.filter_hyphenated, h]

/-- What an id is written with is not escaped. -/
theorem Uuid.plain_hyphenated (uuid : Uuid) :
    ∀ c ∈ uuid.hyphenated, c ∈ hexDigits ∨ c = '-' := by
  intro c hc
  by_cases hhyphen : c = '-'
  · exact .inr hhyphen
  · have hdigit : c ∈ uuid.hyphenated.filter fun c => decide (c ≠ '-') :=
      List.mem_filter.2 ⟨hc, decide_eq_true hhyphen⟩
    rw [uuid.filter_hyphenated] at hdigit
    exact .inl (uuid.hex c hdigit)

theorem RunId.plain_text (run : RunId) : ∀ c ∈ run.text.toList, c.isAlphanum ∨ c = '-' := by
  intro c hc
  cases run with
  | submitted uuid =>
    rw [RunId.text, String.toList_ofList] at hc
    exact (uuid.plain_hyphenated c hc).imp_left fun hdigit => (isAlphanum_of_hexDigit c hdigit).1
  | qualification uuid =>
    simp only [RunId.text, String.toList_append, String.toList_ofList, List.mem_append] at hc
    rcases hc with hc | hc
    · revert c
      simp
    · exact .inl (isAlphanum_of_hexDigit c (uuid.hex c hc)).1

/-- It names a directory of its own. -/
theorem RunId.plain (run : RunId) : Path.Plain run.text.toList := by
  refine plain_of_length ?_ fun hslash => absurd (run.plain_text '/' hslash) (by decide)
  cases run with
  | submitted uuid =>
    rw [RunId.text, String.toList_ofList, uuid.length_hyphenated]
    decide
  | qualification uuid =>
    simp only [RunId.text, String.toList_append, List.length_append]
    exact Nat.lt_add_right _ (by decide)

/-- An id can be told from what comes after it. -/
theorem RunId.prefixCode_text : PrefixCode fun run : RunId => run.text.toList := by
  have hsubmitted : PrefixCode Uuid.hyphenated :=
    .of_length Uuid.length_hyphenated Uuid.hyphenated_injective
  have hsimple : PrefixCode Uuid.simple := .of_length Uuid.length fun _ _ => Uuid.ext
  -- no digit and no hyphen is the first letter of a qualification
  have hfirst : ∀ (uuid other : Uuid) (s t : List Char),
      uuid.hyphenated ++ s ≠ "qualify-".toList ++ other.simple ++ t := by
    intro uuid other s t h
    have hhead : 'q' ∈ uuid.hyphenated := by
      have hget := congrArg (·[0]?) h
      rw [List.getElem?_append_left (by rw [uuid.length_hyphenated]; decide)] at hget
      exact List.mem_of_getElem? hget
    exact absurd (uuid.plain_hyphenated 'q' hhead) (by decide)
  intro run other s t h
  cases run with
  | submitted uuid =>
    cases other with
    | submitted other =>
      simp only [RunId.text, String.toList_ofList] at h
      exact (hsubmitted h).imp_left (congrArg _)
    | qualification other =>
      simp only [RunId.text, String.toList_append, String.toList_ofList] at h
      exact absurd h (hfirst uuid other s t)
  | qualification uuid =>
    cases other with
    | submitted other =>
      simp only [RunId.text, String.toList_append, String.toList_ofList] at h
      exact absurd h.symm (hfirst other uuid t s)
    | qualification other =>
      simp only [RunId.text, String.toList_append, String.toList_ofList, List.append_assoc,
        List.append_cancel_left_eq] at h
      exact (hsimple h).imp_left (congrArg _)

/-- The run and the job can be read back from the name of a scope. -/
theorem unitNameOf_inj {run other : RunId} {jobId otherJob : List UInt8}
    (h : unitNameOf run.text jobId = unitNameOf other.text otherJob) :
    run = other ∧ jobId = otherJob := by
  have hlist := congrArg String.toList h
  simp only [unitNameOf, escape_eq_self run.plain_text, escape_eq_self other.plain_text,
    String.toList_append, String.toList_ofList, List.append_assoc,
    List.append_cancel_left_eq] at hlist
  obtain ⟨hrun, hrest⟩ := RunId.prefixCode_text hlist
  exact ⟨hrun, flatMap_escapeByte_inj (List.append_cancel_left hrest)⟩

theorem unitName_eq_unitNameOf (runId jobId : String) :
    unitName runId jobId = unitNameOf runId jobId.toUTF8.data.toList := rfl

theorem isUnitText_unitNameOf (runId : String) (jobId : List UInt8) :
    IsUnitText (unitNameOf runId jobId) := by
  have hplain : ∀ bytes : List UInt8, ∀ c ∈ bytes.flatMap escapeByte,
      c.isAlphanum ∨ c = '-' ∨ c = '_' := by
    intro bytes c hc
    obtain ⟨byte, -, hc⟩ := List.mem_flatMap.1 hc
    exact isUnitText_escapeByte byte c hc
  intro c hc
  simp only [unitNameOf, escape, String.toList_append, String.toList_ofList,
    List.mem_append] at hc
  rcases hc with ((hc | hc) | hc) | hc
  · revert c
    simp
  · exact hplain _ c hc
  · exact .inr (.inl (List.mem_singleton.1 hc))
  · exact hplain _ c hc

/-- **Scope names keep jobs apart**, across all runs, and are names that systemd takes. -/
theorem unitName_keepsApart (run other : RunId) :
    (∀ jobId otherJob : List UInt8,
      unitNameOf run.text jobId = unitNameOf other.text otherJob ↔
        run.text = other.text ∧ jobId = otherJob) ∧
      (∀ jobId otherJob : String, unitName run.text jobId = unitName other.text otherJob ↔
        run.text = other.text ∧ jobId = otherJob) ∧
      (∀ jobId : List UInt8, IsUnitText (unitNameOf run.text jobId)) ∧
      ∀ jobId : String, IsUnitText (unitName run.text jobId) := by
  refine ⟨fun jobId otherJob => ⟨fun h => ?_, ?_⟩, fun jobId otherJob => ⟨fun h => ?_, ?_⟩,
    isUnitText_unitNameOf run.text, fun jobId => ?_⟩
  · exact (unitNameOf_inj h).imp_left (congrArg _)
  · rintro ⟨hrun, rfl⟩
    rw [hrun]
  · obtain ⟨rfl, hbytes⟩ := unitNameOf_inj h
    exact ⟨rfl, unitName_inj h⟩
  · rintro ⟨hrun, rfl⟩
    rw [hrun]
  · rw [unitName_eq_unitNameOf]
    exact isUnitText_unitNameOf _ _

@[simp] theorem jobNames_unit (cwd : Path.Dir) (home : String) (key : Key) :
    (jobNames cwd home).unit key = unitName key.1 key.2 := by
  simp only [jobNames]

@[simp] theorem jobNames_exitFile (cwd : Path.Dir) (home : String) (key : Key) :
    (jobNames cwd home).exitFile key = exitLocation cwd home key.1 key.2 := by
  simp only [jobNames]

/-- The jobs of a run have scopes and exit files of their own when their ids are placed apart. -/
theorem jobNames_apart {cwd : Path.Dir} {home runId : String} {ids : List String}
    (h : PlacedApart (runDir cwd home runId) ids) :
    (jobNames cwd home).Apart {key | key.1 = runId ∧ key.2 ∈ ids} := by
  rintro ⟨run, a⟩ ⟨hrun, ha⟩ ⟨run', b⟩ ⟨hrun', hb⟩ hne
  obtain rfl : run = runId := hrun
  obtain rfl : run' = run := hrun'
  have hab : a ≠ b := by
    rintro rfl
    exact hne rfl
  rw [jobNames_unit, jobNames_unit, jobNames_exitFile, jobNames_exitFile]
  exact ⟨fun heq => hab (unitName_inj heq), h.exitLocation_ne ha hb hab⟩

/-- So do the jobs of any runs, each with ids that are placed apart. -/
theorem jobNames_apart_of_runs {cwd : Path.Dir} {home : String} {ids : RunId → List String}
    (h : ∀ run, PlacedApart (runDir cwd home run.text) (ids run)) :
    (jobNames cwd home).Apart {key | ∃ run : RunId, key.1 = run.text ∧ key.2 ∈ ids run} := by
  rintro ⟨_, a⟩ ⟨run, rfl, ha⟩ ⟨_, b⟩ ⟨other, rfl, hb⟩ hne
  by_cases hrun : run = other
  · subst hrun
    exact jobNames_apart (h run) _ ⟨rfl, ha⟩ _ ⟨rfl, hb⟩ hne
  · rw [jobNames_unit, jobNames_unit, jobNames_exitFile, jobNames_exitFile]
    refine ⟨fun heq => hrun (unitNameOf_inj heq).1, ?_⟩
    refine exitLocation_ne_of_run run.plain other.plain (fun heq => hrun ?_) (h run) (h other) ha hb
    exact RunId.prefixCode_text.injective (congrArg String.toList heq)

end Roster
