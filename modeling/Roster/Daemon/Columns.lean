import Roster.Daemon.Logs
import Roster.Ipc.Exchange
import Mathlib.Data.String.Basic

/-!
# The columns of the tables

`RunStore` has the rows as values.  What the database has of them are texts and numbers: specs and
allocations as JSON, times as RFC 3339 texts, an exit code as 64 bits; what `unfinished_runs`
returns is in the order of the texts, and `take_back_runs` reads each text where it needs it.

* `tables_writes` : after any writes the tables are those of the values that were written.
* `texts_taken_back` : whatever order the rows come in, what `take_back_runs` makes of the texts is
  what it makes of the values, and it leaves the tables of the store that it leaves.
-/

namespace Roster

open Serde

/-! ### Texts -/

/-- The entries of a `WorkflowSpec`. -/
def WorkflowSpec.entries (spec : WorkflowSpec) : List (Value Scalar × Value Scalar) :=
  [(key "name", Codec.text.write spec.name), (key "jobs", JobSpec.codec.list.write spec.jobs)]

theorem visit_workflowFields (spec : WorkflowSpec) :
    visitMap scalars (workflowFields scalars) false {} spec.entries =
      .ok ⟨spec.name, spec.jobs⟩ := by
  have hjobs : (scalars.items (JobSpec.codec.list.write spec.jobs) >>= fun items =>
      items.mapM (readJobSpec scalars)) = .ok spec.jobs := JobSpec.codec.list.read_write _
  simp only [WorkflowSpec.entries, visitMap_cons, visitMap_nil, visitEntry, name?_key,
    workflowFields, Keyed.get?_cons, Field.ofOption, Codec.read_text, hjobs, reduceIte,
    String.reduceEq, Option.isSome_none, Bool.false_eq_true, pure, Except.pure, ok_bind]

/-- `WorkflowSpec`, which is read as in a workflow document. -/
def WorkflowSpec.codec : Codec Error WorkflowSpec where
  write spec := .map spec.entries
  read := readWorkflowSpec scalars
  read_write spec := by
    rw [readWorkflowSpec, Scalars.entries, ok_bind, visit_workflowFields]
    rfl
  named spec := .map (by simp [WorkflowSpec.entries]) (by
    simpa [WorkflowSpec.entries] using ⟨Codec.text.named _, JobSpec.codec.list.named _⟩)

namespace Ipc.SerdeJson

variable (json : SerdeJson) {α : Type} (c : Codec Error α)

/-- `serde_json::to_string`. -/
def text (a : α) : String := json.toString (c.write a)

/-- `serde_json::from_str(text).ok()`. -/
def ofText (text : String) : Option α := do
  let document ← (json.fromStr text).toOption
  (c.read document).toOption

@[simp] theorem ofText_text (a : α) : json.ofText c (json.text c a) = some a := by
  rw [ofText, text, json.fromStr_toString _ (c.named a)]
  simp [Except.toOption, c.read_write]

end Ipc.SerdeJson

/-! ### Tables -/

/-- A row of the `runs` table. -/
structure RunColumns where
  runId : String
  workflowName : String
  createdAt : String
  specJson : Option String

/-- A row of the `jobs` table. -/
structure JobColumns where
  runId : String
  jobId : String
  state : String
  exitCode : Option Int64
  startedAt : Option String
  endedAt : Option String
  logPath : Option String
  node : Option String
  allocation : Option String
  reason : Option String

def JobColumns.key (row : JobColumns) : JobKey := (row.runId, row.jobId)

/-- The database. -/
structure Tables where
  runs : List RunColumns
  jobs : List JobColumns

/-- What `unfinished_runs` returns of a run. -/
structure SavedTexts where
  runId : String
  createdAt : String
  specJson : Option String
  jobs : List JobColumns

variable (json : Ipc.SerdeJson) (times : Rfc3339)

namespace Tables

/-- `RunStore::upsert_run`. -/
def upsertRun (tables : Tables) (run : WorkflowRun) : Tables :=
  { tables with
    runs := Keyed.insert RunColumns.runId tables.runs
      ⟨run.runId, run.workflowName, times.toText run.createdAt,
        some (json.text WorkflowSpec.codec run.spec)⟩ }

/-- What `RunStore::upsert_job` binds. -/
def columnsOf (runId : String) (job : JobInstance) (node : Option String) : JobColumns where
  runId := runId
  jobId := job.jobId
  state := job.state.asStr
  exitCode := job.exitCode.map Int32.toInt64
  startedAt := job.startedAt.map times.toText
  endedAt := job.endedAt.map times.toText
  logPath := job.logPath
  node := node
  allocation := job.executions.head?.map fun execution =>
    json.text Allocation.derived.codec execution.allocation
  reason := job.reason

/-- `RunStore::upsert_job`. -/
def upsertJob (tables : Tables) (runId : String) (job : JobInstance) (node : Option String) :
    Tables :=
  { tables with
    jobs := Keyed.insert JobColumns.key tables.jobs (columnsOf json times runId job node) }

/-- `RunStore::interrupt`. -/
def interrupt (tables : Tables) (runId jobId : String) (now : DateTime) : Tables :=
  { tables with
    jobs := Keyed.modify JobColumns.key tables.jobs (runId, jobId) fun row =>
      { row with
        state := "Interrupted", endedAt := some (times.toText now), node := none
        allocation := none } }

/-- The rows of a run's jobs. -/
def jobsOf (tables : Tables) (runId : String) : List JobColumns :=
  tables.jobs.filter fun row => decide (row.runId = runId)

/-- The run has a job that has not ended. -/
def unfinished (tables : Tables) (run : RunColumns) : Bool :=
  (tables.jobsOf run.runId).any fun row =>
    decide (row.state = "Pending" ∨ row.state = "Queued" ∨ row.state = "Running")

/-- What `unfinished_runs` may return: the runs with a job that has not ended, in the order of the
texts of their times, each with the rows of its jobs. -/
structure Selects (tables : Tables) (rows : List SavedTexts) : Prop where
  runs : (rows.map fun row => (row.runId, row.createdAt, row.specJson)).Perm
    ((tables.runs.filter tables.unfinished).map fun run => (run.runId, run.createdAt, run.specJson))
  sorted : rows.Pairwise fun a b => a.createdAt ≤ b.createdAt
  jobs : ∀ row ∈ rows, row.jobs.Perm (tables.jobsOf row.runId)

end Tables

/-! ### Taking back what the tables say -/

/-- `parse_time`, of a column that may be empty. -/
def Rfc3339.parse? (text : Option String) : Option DateTime := text.bind times.ofText

/-- `restore`. -/
def JobInstance.restoreColumns (job : JobInstance) (row : JobColumns) : JobInstance :=
  { job with
    state := (JobState.fromStr row.state).getD .pending
    exitCode := row.exitCode.map Int64.toInt32
    startedAt := times.parse? row.startedAt
    endedAt := times.parse? row.endedAt
    logPath := row.logPath
    reason := row.reason }

/-- `reattach`. -/
def reattachColumns (nodes : List Node) (found : JobKey → Option JobHandle) (runId : String)
    (row : JobColumns) : Option Execution := do
  let node ← nodes.findIdx? fun node => decide (some node.name = row.node)
  let allocation ← json.ofText Allocation.derived.codec (← row.allocation)
  let ssh ← nodes[node]?.map Node.ssh
  let handle ← match ssh with
    | none => found (runId, row.jobId)
    | some _ => some (.remote 0 runId row.jobId)
  return ⟨node, allocation, some handle⟩

/-- What taking back runs works on. -/
structure Recovering where
  runs : List WorkflowRun
  pools : List ResourcePool
  tables : Tables
  runCounter : ℕ
  jobCounter : ℕ

/-- `take_back_runs` on one saved job. -/
def takeBackColumns (nodes : List Node) (found : JobKey → Option JobHandle) (runId : String)
    (now : DateTime) (acc : List JobInstance × List ResourcePool × Tables) (row : JobColumns) :
    Exec (List JobInstance × List ResourcePool × Tables) :=
  let (jobs, pools, tables) := acc
  match Keyed.get? JobInstance.jobId jobs row.jobId with
  | none => .ok acc
  | some job =>
    let job := job.restoreColumns times row
    let put (job : JobInstance) := Keyed.modify JobInstance.jobId jobs row.jobId fun _ => job
    if job.state ≠ .running then .ok (put job, pools, tables)
    else
      match reattachColumns json nodes found runId row with
      | some execution => do
        let pools ← Exec.update pools execution.node fun pool =>
          .ok (pool.book execution.allocation)
        return (put { job with executions := [execution] }, pools, tables)
      | none => .ok (put { job with state := .interrupted, endedAt := some now }, pools,
        tables.interrupt times runId job.jobId now)

/-- `take_back_runs` on one saved run. -/
def takeBackTexts (cfg : Config) (found : JobKey → Option JobHandle) (now : DateTime)
    (acc : Recovering) (saved : SavedTexts) : Exec Recovering :=
  match saved.specJson.bind (json.ofText WorkflowSpec.codec) with
  | none => .ok { acc with
      tables := saved.jobs.foldl (fun tables row =>
        if (JobState.fromStr row.state).any fun state => !state.isTerminal then
          tables.interrupt times saved.runId row.jobId now
        else tables) acc.tables }
  | some spec => do
    let fresh := WorkflowRun.new saved.runId acc.runCounter spec acc.jobCounter now
    let run := match times.ofText saved.createdAt with
      | some createdAt => { fresh with createdAt := createdAt }
      | none => fresh
    let (jobs, pools, tables) ← saved.jobs.foldlM
      (takeBackColumns json times cfg.nodes found saved.runId now) (run.jobs, acc.pools, acc.tables)
    return {
      runs := Keyed.insert WorkflowRun.runId acc.runs { run with jobs := jobs }
      pools := pools
      tables := tables
      runCounter := acc.runCounter + 1
      jobCounter := acc.jobCounter + spec.jobs.length }

/-! ### The values behind the columns -/

/-- The columns of a row. -/
def RunRow.columns (row : RunRow) : RunColumns where
  runId := row.runId
  workflowName := row.workflowName
  createdAt := times.toText row.createdAt
  specJson := row.spec.map (json.text WorkflowSpec.codec)

def JobRow.columns (row : JobRow) : JobColumns where
  runId := row.runId
  jobId := row.jobId
  state := row.state
  exitCode := row.exitCode.map Int32.toInt64
  startedAt := row.startedAt.map times.toText
  endedAt := row.endedAt.map times.toText
  logPath := row.logPath
  node := row.node
  allocation := row.allocation.map (json.text Allocation.derived.codec)
  reason := row.reason

/-- The tables of a store. -/
def RunStore.tables (store : RunStore) : Tables where
  runs := store.runs.map (RunRow.columns json times)
  jobs := store.jobs.map (JobRow.columns json times)

/-- What the columns of a row say. -/
def JobColumns.read (row : JobColumns) : JobRow where
  runId := row.runId
  jobId := row.jobId
  state := row.state
  exitCode := row.exitCode.map Int64.toInt32
  startedAt := times.parse? row.startedAt
  endedAt := times.parse? row.endedAt
  logPath := row.logPath
  node := row.node
  allocation := row.allocation.bind (json.ofText Allocation.derived.codec)
  reason := row.reason

/-- What is read of a saved run; a run whose time can't be read is one of now. -/
def SavedTexts.read (now : DateTime) (saved : SavedTexts) : SavedRun where
  runId := saved.runId
  createdAt := (times.ofText saved.createdAt).getD now
  spec := saved.specJson.bind (json.ofText WorkflowSpec.codec)
  jobs := saved.jobs.map (JobColumns.read json times)

@[simp] theorem Rfc3339.parse?_map (time : Option DateTime) :
    times.parse? (time.map times.toText) = time := by
  cases time <;> simp [parse?, times.ofText_toText]

@[simp] theorem Ipc.SerdeJson.bind_ofText_map {α : Type} (c : Codec Error α) (a : Option α) :
    (a.map (json.text c)).bind (json.ofText c) = a := by
  cases a <;> simp

/-- What was written of a row is read back. -/
theorem JobColumns.read_columns (row : JobRow) :
    (row.columns json times).read json times = row := by
  have hcode : (row.exitCode.map Int32.toInt64).map Int64.toInt32 = row.exitCode := by
    cases row.exitCode <;> simp
  simp [JobRow.columns, read, hcode]

theorem JobColumns.read_comp_columns :
    JobColumns.read json times ∘ JobRow.columns json times = id :=
  funext (read_columns json times)

/-! ### Writes -/

/-- A write to the store. -/
inductive StoreWrite
  | run (run : WorkflowRun)
  | job (runId : String) (job : JobInstance) (node : Option String)
  | interrupt (runId jobId : String) (now : DateTime)

def RunStore.write (store : RunStore) : StoreWrite → RunStore
  | .run run => store.upsertRun run
  | .job runId job node => store.upsertJob runId job node
  | .interrupt runId jobId now => store.interrupt runId jobId now

def Tables.write (tables : Tables) : StoreWrite → Tables
  | .run run => tables.upsertRun json times run
  | .job runId job node => tables.upsertJob json times runId job node
  | .interrupt runId jobId now => tables.interrupt times runId jobId now

theorem tables_interrupt (store : RunStore) (runId jobId : String) (now : DateTime) :
    (store.tables json times).interrupt times runId jobId now =
      (store.interrupt runId jobId now).tables json times :=
  congrArg (Tables.mk _) (Keyed.modify_map (fun _ => rfl) fun _ => rfl)

/-- A write to the tables is that of the values. -/
theorem tables_write (store : RunStore) (write : StoreWrite) :
    (store.tables json times).write json times write =
      (store.write write).tables json times := by
  cases write with
  | run run =>
    let row : RunRow := ⟨run.runId, run.workflowName, run.createdAt, some run.spec⟩
    have hinsert : Keyed.insert RunColumns.runId (store.runs.map (RunRow.columns json times))
        (row.columns json times) =
          (Keyed.insert RunRow.runId store.runs row).map (RunRow.columns json times) :=
      Keyed.insert_map fun _ => rfl
    exact congrArg (Tables.mk · _) hinsert
  | job runId job node =>
    have hinsert : Keyed.insert JobColumns.key (store.jobs.map (JobRow.columns json times))
        ((RunStore.rowOf runId job node).columns json times) =
          (Keyed.insert JobRow.key store.jobs (RunStore.rowOf runId job node)).map
            (JobRow.columns json times) := Keyed.insert_map fun _ => rfl
    have hcolumns : (RunStore.rowOf runId job node).columns json times =
        Tables.columnsOf json times runId job node := by
      simp [RunStore.rowOf, JobRow.columns, Tables.columnsOf, Function.comp_def]
    rw [hcolumns] at hinsert
    exact congrArg (Tables.mk _) hinsert
  | interrupt runId jobId now => exact tables_interrupt json times store runId jobId now

/-- **So are any writes**, one after the other. -/
theorem tables_writes (store : RunStore) (writes : List StoreWrite) :
    writes.foldl (Tables.write json times) (store.tables json times) =
      (writes.foldl RunStore.write store).tables json times := by
  induction writes generalizing store with
  | nil => rfl
  | cons write writes ih => rw [List.foldl_cons, List.foldl_cons, tables_write, ih]

/-! ### Taking back -/

/-- What of the daemon's state taking back runs works on. -/
def DaemonState.recovering (daemon : DaemonState) : Recovering where
  runs := daemon.runs
  pools := daemon.pools
  tables := daemon.store.tables json times
  runCounter := daemon.runCounter
  jobCounter := daemon.jobCounter

theorem reattachColumns_eq (nodes : List Node) (found : JobKey → Option JobHandle) (runId : String)
    (row : JobColumns) :
    reattachColumns json nodes found runId row =
      reattach nodes found runId (row.read json times) := by
  simp only [reattachColumns, reattach, JobColumns.read, Option.bind_eq_bind, Option.bind_assoc]
  rfl

/-- One job is taken back by its columns as it is by what they say. -/
theorem takeBackColumns_eq (nodes : List Node) (found : JobKey → Option JobHandle) (runId : String)
    (now : DateTime) (acc : TakingBack) (row : JobColumns) :
    takeBackColumns json times nodes found runId now
        (acc.jobs, acc.pools, acc.store.tables json times) row =
      (fun acc => (acc.jobs, acc.pools, acc.store.tables json times)) <$>
        takeBackJob nodes found runId now acc (row.read json times) := by
  have hid : (row.read json times).jobId = row.jobId := rfl
  have hrestore : ∀ job : JobInstance,
      job.restoreColumns times row = job.restore (row.read json times) := fun _ => rfl
  simp only [takeBackColumns, takeBackJob, reattachColumns_eq json times, hid, hrestore]
  cases Keyed.get? JobInstance.jobId acc.jobs row.jobId with
  | none => rfl
  | some job =>
    dsimp only
    split
    · rfl
    cases reattach nodes found runId (row.read json times) with
    | some execution =>
      dsimp only
      rw [map_bind]
      rfl
    | none =>
      dsimp only
      rw [tables_interrupt]
      rfl

/-- So are the jobs of a run without a spec interrupted. -/
theorem interruptTexts_eq (store : RunStore) (saved : SavedTexts) (now : DateTime) :
    saved.jobs.foldl (fun tables row =>
        if (JobState.fromStr row.state).any fun state => !state.isTerminal then
          tables.interrupt times saved.runId row.jobId now
        else tables) (store.tables json times) =
      (interruptJobs store (saved.read json times now) now).tables json times := by
  have hjobs : (saved.read json times now).jobs =
      saved.jobs.map (JobColumns.read json times) := rfl
  rw [interruptJobs, hjobs, List.foldl_map]
  refine List.foldl_hom (RunStore.tables json times) fun store row => ?_
  rw [apply_ite (RunStore.tables json times), tables_interrupt]
  rfl

/-- And a run is taken back. -/
theorem takeBackTexts_eq (cfg : Config) (found : JobKey → Option JobHandle) (now : DateTime)
    (daemon : DaemonState) (saved : SavedTexts) :
    takeBackTexts json times cfg found now (daemon.recovering json times) saved =
      DaemonState.recovering json times <$>
        takeBackRun cfg found now daemon (saved.read json times now) := by
  have hspec : (saved.read json times now).spec =
      saved.specJson.bind (json.ofText WorkflowSpec.codec) := rfl
  unfold takeBackTexts takeBackRun
  rw [hspec]
  cases saved.specJson.bind (json.ofText WorkflowSpec.codec) with
  | none =>
    exact congrArg (fun tables => Except.ok (Recovering.mk _ _ tables _ _))
      (interruptTexts_eq json times daemon.store saved now)
  | some spec =>
    -- a time that can't be read leaves the run one of now
    have hrun : ∀ fresh : WorkflowRun, fresh.createdAt = now →
        (match times.ofText saved.createdAt with
          | some createdAt => { fresh with createdAt := createdAt }
          | none => fresh) = { fresh with createdAt := (saved.read json times now).createdAt } := by
      rintro fresh rfl
      simp only [SavedTexts.read]
      cases times.ofText saved.createdAt <;> rfl
    let fresh := WorkflowRun.new saved.runId daemon.runCounter spec daemon.jobCounter now
    have hloop : saved.jobs.foldlM (takeBackColumns json times cfg.nodes found saved.runId now)
        (fresh.jobs, daemon.pools, daemon.store.tables json times) =
          (fun acc : TakingBack => (acc.jobs, acc.pools, acc.store.tables json times)) <$>
            (saved.read json times now).jobs.foldlM (takeBackJob cfg.nodes found saved.runId now)
              ⟨fresh.jobs, daemon.pools, daemon.store⟩ :=
      Exec.foldlM_simulates (fun acc row _ =>
        takeBackColumns_eq json times cfg.nodes found saved.runId now acc row)
        (⟨fresh.jobs, daemon.pools, daemon.store⟩ : TakingBack)
    dsimp only [DaemonState.recovering]
    rw [hrun _ rfl, map_bind]
    dsimp only
    rw [hloop, bind_map_left]
    rfl

/-! ### What is selected -/

/-- The same of the values: the runs with a job that has not ended, oldest first, each with its
rows. -/
structure RunStore.Selects (store : RunStore) (list : List SavedRun) : Prop where
  runs : (list.map fun saved => (saved.runId, saved.createdAt, saved.spec)).Perm
    ((store.runs.filter store.unfinished).map fun run => (run.runId, run.createdAt, run.spec))
  sorted : list.Pairwise fun a b => a.createdAt ≤ b.createdAt
  jobs : ∀ saved ∈ list, saved.jobs.Perm (store.jobsOf saved.runId)

theorem RunStore.selects_unfinishedRuns (store : RunStore) :
    store.Selects store.unfinishedRuns where
  runs := by
    rw [unfinishedRuns, List.map_map]
    exact (List.mergeSort_perm _ _).map _
  sorted := by
    rw [unfinishedRuns, List.pairwise_map]
    refine (List.pairwise_mergeSort ?_ ?_ _).imp fun h => of_decide_eq_true h
    · exact fun a b c hab hbc => decide_eq_true
        ((of_decide_eq_true hab).trans (of_decide_eq_true hbc))
    · intro a b
      simpa using le_total a.createdAt b.createdAt
  jobs saved hsaved := by
    obtain ⟨run, -, rfl⟩ := List.mem_map.1 hsaved
    exact List.Perm.refl _

/-- The texts of the times at which the runs were created come in the order of these times. -/
def Rfc3339.Ordered (store : RunStore) : Prop :=
  ∀ a ∈ store.runs, ∀ b ∈ store.runs,
    (times.toText a.createdAt ≤ times.toText b.createdAt ↔ a.createdAt ≤ b.createdAt)

theorem tables_runs (store : RunStore) :
    (store.tables json times).runs = store.runs.map (RunRow.columns json times) := rfl

theorem tables_jobsOf (store : RunStore) (runId : String) :
    (store.tables json times).jobsOf runId =
      (store.jobsOf runId).map (JobRow.columns json times) := by
  rw [Tables.jobsOf, RunStore.tables, List.filter_map]
  rfl

theorem tables_unfinished (store : RunStore) :
    (store.tables json times).unfinished ∘ RunRow.columns json times = store.unfinished := by
  funext run
  have hid : (run.columns json times).runId = run.runId := rfl
  rw [Function.comp_apply, Tables.unfinished, hid, tables_jobsOf, List.any_map]
  rfl

variable {json times}

/-- A run that is selected is one of the store. -/
theorem Tables.Selects.run {store : RunStore} {rows : List SavedTexts}
    (h : (store.tables json times).Selects rows) {row : SavedTexts} (hrow : row ∈ rows) :
    ∃ run ∈ store.runs, row.createdAt = times.toText run.createdAt := by
  have hmem := h.runs.subset (List.mem_map_of_mem hrow)
  obtain ⟨columns, hcolumns, heq⟩ := List.mem_map.1 hmem
  obtain ⟨run, hrun, rfl⟩ := List.mem_map.1 (List.mem_filter.1 hcolumns).1
  exact ⟨run, hrun, (congrArg (fun triple => triple.2.1) heq).symm⟩

/-- What the query may return of the tables says what it may return of the values. -/
theorem Tables.Selects.read {store : RunStore} (hordered : times.Ordered store)
    {rows : List SavedTexts} (h : (store.tables json times).Selects rows) (now : DateTime) :
    store.Selects (rows.map (SavedTexts.read json times now)) where
  runs := by
    have hread := h.runs.map fun triple : String × String × Option String =>
      (triple.1, (times.ofText triple.2.1).getD now,
        triple.2.2.bind (json.ofText WorkflowSpec.codec))
    rw [tables_runs, List.filter_map, tables_unfinished, List.map_map, List.map_map,
      List.map_map] at hread
    rw [List.map_map]
    refine hread.trans (List.Perm.of_eq ?_)
    refine List.map_congr_left fun run _ => ?_
    simp [RunRow.columns, times.ofText_toText]
  sorted := by
    rw [List.pairwise_map]
    refine h.sorted.imp_of_mem fun {a b} ha hb hle => ?_
    obtain ⟨runA, hrunA, htextA⟩ := h.run ha
    obtain ⟨runB, hrunB, htextB⟩ := h.run hb
    rw [htextA, htextB, hordered runA hrunA runB hrunB] at hle
    simpa [SavedTexts.read, htextA, htextB, times.ofText_toText] using hle
  jobs saved hsaved := by
    obtain ⟨row, hrow, rfl⟩ := List.mem_map.1 hsaved
    have hjobs := (h.jobs row hrow).map (JobColumns.read json times)
    rwa [tables_jobsOf, List.map_map, JobColumns.read_comp_columns, List.map_id] at hjobs

variable (json times)

/-- The texts of a saved run. -/
def SavedRun.texts (saved : SavedRun) : SavedTexts where
  runId := saved.runId
  createdAt := times.toText saved.createdAt
  specJson := saved.spec.map (json.text WorkflowSpec.codec)
  jobs := saved.jobs.map (JobRow.columns json times)

theorem SavedTexts.read_texts (saved : SavedRun) (now : DateTime) :
    (saved.texts json times).read json times now = saved := by
  simp [read, SavedRun.texts, times.ofText_toText, JobColumns.read_comp_columns]

variable {json times}

/-- What may be returned of the values may be returned of the tables. -/
theorem RunStore.Selects.texts {store : RunStore} (hordered : times.Ordered store)
    {list : List SavedRun} (h : store.Selects list) :
    (store.tables json times).Selects (list.map (SavedRun.texts json times)) where
  runs := by
    have htexts := h.runs.map fun triple : String × DateTime × Option WorkflowSpec =>
      (triple.1, times.toText triple.2.1, triple.2.2.map (json.text WorkflowSpec.codec))
    rw [List.map_map, List.map_map] at htexts
    rw [tables_runs, List.filter_map, tables_unfinished, List.map_map, List.map_map]
    exact htexts
  sorted := by
    have hrun : ∀ saved ∈ list, ∃ run ∈ store.runs, run.createdAt = saved.createdAt := by
      intro saved hsaved
      obtain ⟨run, hrun, heq⟩ := List.mem_map.1 (h.runs.subset (List.mem_map_of_mem hsaved))
      exact ⟨run, (List.mem_filter.1 hrun).1, congrArg (fun triple => triple.2.1) heq⟩
    rw [List.pairwise_map]
    refine h.sorted.imp_of_mem fun {a b} ha hb hle => ?_
    obtain ⟨runA, hrunA, hA⟩ := hrun a ha
    obtain ⟨runB, hrunB, hB⟩ := hrun b hb
    rw [← hA, ← hB] at hle
    simpa [SavedRun.texts, ← hA, ← hB] using (hordered runA hrunA runB hrunB).2 hle
  jobs row hrow := by
    obtain ⟨saved, hsaved, rfl⟩ := List.mem_map.1 hrow
    have hid : (saved.texts json times).runId = saved.runId := rfl
    rw [hid, tables_jobsOf]
    exact (h.jobs saved hsaved).map _

/-! ### Over all lives -/

/-- The store came from the other one by writes. -/
def RunStore.WrittenFrom (start store : RunStore) : Prop :=
  ∃ writes : List StoreWrite, writes.foldl RunStore.write start = store

namespace RunStore.WrittenFrom

variable {start store : RunStore}

theorem write (h : start.WrittenFrom store) (write : StoreWrite) :
    start.WrittenFrom (store.write write) := by
  obtain ⟨writes, rfl⟩ := h
  exact ⟨writes ++ [write], by rw [List.foldl_append]; rfl⟩

theorem step {cfg : Config} {s s' : SchedulerState} {label : Label} (hinv : KeysInv s)
    (hstore : start.WrittenFrom s.daemon.store) (h : Step cfg s label s') :
    start.WrittenFrom s'.daemon.store := by
  cases h.kind with
  | submit _ _ =>
    exact submit_store (P := start.WrittenFrom) (hstore.write (.run _))
      (fun _ runId job node h => h.write (.job runId job node)) hstore
  | flushed hok =>
    rcases flushTransition_store hok with hsame | ⟨job, node, hwritten⟩
    · exact hsame ▸ hstore
    · exact hwritten ▸ hstore.write (.job _ job node)
  | silent hsilent => exact (h.leftToFlush hinv hsilent).store ▸ hstore

theorem life {life life' : Life} {event : LifeEvent} (hinv : life.RoomInv)
    (hstore : start.WrittenFrom life.store) (h : LifeStep life event life') :
    start.WrittenFrom life'.store := by
  have hint : ∀ (now : DateTime) (store : RunStore) (runId jobId : String),
      start.WrittenFrom store → start.WrittenFrom (store.interrupt runId jobId now) :=
    fun now _ runId jobId h => h.write (.interrupt runId jobId now)
  cases h with
  | sched hperform => exact step hinv.1 hstore (step_of_perform hperform)
  | stop => exact hstore
  | @start cfg pools found now store daemon _ htake =>
    have hbefore : start.WrittenFrom (DaemonState.new pools store).store := hstore
    exact takeBackRunList_store (hint now) hbefore htake
  | @startStop cfg pools found now runs jobs store daemon _ htake =>
    have hbefore : start.WrittenFrom (DaemonState.new pools store).store := hstore
    exact takeBackUntil_store (hint now) hbefore htake

end RunStore.WrittenFrom

/-- **What the tables say is taken back**, over all lives of the controller: the store of a life
came by writes, the same writes make the tables of it, and whatever the query returns of these, what
`take_back_runs` makes of the texts it makes of the values in that order, and it leaves the tables
of the store that it leaves.  What it makes of the values in the order of their times is among
these. -/
theorem texts_taken_back (json : Ipc.SerdeJson) (times : Rfc3339) {life : Life}
    (h : lives.Reach (.down ⟨[], []⟩) life) (hordered : times.Ordered life.store) :
    ∃ writes : List StoreWrite, writes.foldl RunStore.write ⟨[], []⟩ = life.store ∧
      ∀ tables, writes.foldl (Tables.write json times) ⟨[], []⟩ = tables →
        ∀ cfg pools found now,
        (∀ rows, tables.Selects rows → ∃ list, life.store.Selects list ∧
          rows.foldlM (takeBackTexts json times cfg found now) ⟨[], pools, tables, 0, 0⟩ =
            DaemonState.recovering json times <$>
              list.foldlM (takeBackRun cfg found now) (.new pools life.store)) ∧
        ∃ rows, tables.Selects rows ∧
          rows.foldlM (takeBackTexts json times cfg found now) ⟨[], pools, tables, 0, 0⟩ =
            DaemonState.recovering json times <$>
              takeBackRuns cfg found now (.new pools life.store) := by
  have hwritten : (⟨[], []⟩ : RunStore).WrittenFrom life.store :=
    (h.invariant (I := fun life => life.RoomInv ∧
      (⟨[], []⟩ : RunStore).WrittenFrom life.store) ⟨RunStore.Sound.empty, [], rfl⟩
      fun _ _ _ _ hinv hstep => ⟨hinv.1.step hstep, hinv.2.life hinv.1 hstep⟩).2
  obtain ⟨writes, hwrites⟩ := hwritten
  refine ⟨writes, hwrites, ?_⟩
  rintro tables rfl cfg pools found now
  have htables : writes.foldl (Tables.write json times) ⟨[], []⟩ =
      life.store.tables json times := by
    rw [← hwrites]
    exact tables_writes json times ⟨[], []⟩ writes
  have hloop : ∀ rows : List SavedTexts,
      rows.foldlM (takeBackTexts json times cfg found now)
          ⟨[], pools, life.store.tables json times, 0, 0⟩ =
        DaemonState.recovering json times <$>
          (rows.map (SavedTexts.read json times now)).foldlM (takeBackRun cfg found now)
            (.new pools life.store) := fun rows =>
    Exec.foldlM_simulates (fun daemon saved _ =>
      takeBackTexts_eq json times cfg found now daemon saved) (DaemonState.new pools life.store)
  rw [htables]
  constructor
  · exact fun rows hrows => ⟨_, hrows.read hordered now, hloop rows⟩
  · refine ⟨_, (RunStore.selects_unfinishedRuns life.store).texts hordered, ?_⟩
    have hread : (life.store.unfinishedRuns.map (SavedRun.texts json times)).map
        (SavedTexts.read json times now) = life.store.unfinishedRuns := by
      rw [List.map_map]
      exact (List.map_congr_left fun saved _ =>
        SavedTexts.read_texts json times saved now).trans (List.map_id _)
    rw [hloop, hread, takeBackRuns]
    rfl

/-! ### A run -/

/-- The first nanoseconds of 1970. -/
def firstNanoseconds : List DateTime := [0, 1, 2, 3, 4, 5, 6, 7, 8, 9]

/-- Their texts; a whole second has no fraction. -/
def firstText (time : DateTime) : String :=
  if time = 0 then "1970-01-01T00:00:00+00:00"
  else String.ofList ("1970-01-01T00:00:00.00000000".toList ++
    Nat.digitChar time.toNat :: "+00:00".toList)

/-- Times of which only the first nanoseconds are written as they are written otherwise. -/
def firstTimes : Rfc3339 where
  toText time :=
    if time ∈ firstNanoseconds then firstText time else "@" ++ Ipc.nanoseconds.toText time
  ofText s := match firstNanoseconds.find? fun time => decide (firstText time = s) with
    | some time => some time
    | none => Ipc.nanoseconds.ofText (String.ofList (s.toList.drop 1))
  ofText_toText time := by
    have hdistinct : ∀ time ∈ firstNanoseconds,
        (firstNanoseconds.find? fun other => decide (firstText other = firstText time)) =
          some time := by decide
    have hhead : ∀ time ∈ firstNanoseconds, (firstText time).toList.head? = some '1' := by decide
    by_cases hmem : time ∈ firstNanoseconds
    · rw [if_pos hmem, hdistinct time hmem]
    · have hat : ("@" : String).toList = ['@'] := rfl
      have hnone : (firstNanoseconds.find? fun other => decide (firstText other =
          "@" ++ Ipc.nanoseconds.toText time)) = none := by
        refine List.find?_eq_none.2 fun other hother heq => ?_
        have hfirst := hhead other hother
        rw [of_decide_eq_true heq, String.toList_append, hat] at hfirst
        cases hfirst
      rw [if_neg hmem, hnone, String.toList_append, hat, List.singleton_append, List.drop_one,
        List.tail_cons, String.ofList_toList]
      exact Ipc.nanoseconds.ofText_toText time

/-- The run of two jobs, stopped while the first one ran, is taken back from its texts. -/
theorem startsFirst_textsTakenBack : ∃ (writes : List StoreWrite) (tables : Tables)
    (rows : List SavedTexts) (recovered : Recovering),
    writes.foldl (Tables.write Ipc.compactJson firstTimes) ⟨[], []⟩ = tables ∧
    tables.Selects rows ∧
    rows.foldlM (takeBackTexts Ipc.compactJson firstTimes oneMachine (fun _ => none) 5)
      ⟨[], [.new ⟨4, 8192, []⟩], tables, 0, 0⟩ = .ok recovered ∧
    (findRun recovered.runs "r").isSome = true := by
  have hrun : (firstStart.run oneMachine (firstCheck ++ (startsFirst ++ [.flushed true 4]))).map
      (fun s => decide (s.daemon.store.runs.map RunRow.runId = ["r"]) &&
        s.daemon.store.runs.all s.daemon.store.unfinished) = some true := by decide
  obtain ⟨s, hs, hstored⟩ := Option.map_eq_some_iff.1 hrun
  rw [Bool.and_eq_true, decide_eq_true_eq] at hstored
  have hreach : (lives.guard Life.StoreOk).Reach (.down ⟨[], []⟩) (.down s.daemon.store) :=
    (startsFirst_reach (by decide) hs).tail (l := .stop) ⟨trivial, .stop⟩
  have hone : ∃ row, s.daemon.store.runs = [row] := List.length_eq_one_iff.1 <| by
    rw [← List.length_map RunRow.runId, hstored.1]
    rfl
  obtain ⟨row, hrow⟩ := hone
  have hordered : firstTimes.Ordered (Life.down s.daemon.store).store := by
    intro a ha b hb
    have hstore : (Life.down s.daemon.store).store.runs = [row] := hrow
    rw [hstore, List.mem_singleton] at ha hb
    subst ha hb
    exact ⟨fun _ => le_rfl, fun _ => le_rfl⟩
  have hlen : [ResourcePool.new ⟨4, 8192, []⟩].length = oneMachine.nodes.length := rfl
  have hrecoverable : Recoverable s.daemon.store := Life.Inv.reach hreach
  obtain ⟨daemon, hdaemon, htaken⟩ :=
    hrecoverable.takeBackRuns_ok (fun _ => none) 5 hlen
  obtain ⟨writes, -, htables⟩ := texts_taken_back Ipc.compactJson firstTimes hreach.of_guard
    hordered
  obtain ⟨-, rows, hrows, hok⟩ := htables _ rfl oneMachine [.new ⟨4, 8192, []⟩] (fun _ => none) 5
  have hsame : takeBackRuns oneMachine (fun _ => none) 5
      (.new [.new ⟨4, 8192, []⟩] (Life.down s.daemon.store).store) = .ok daemon := hdaemon
  rw [hsame] at hok
  refine ⟨writes, _, rows, daemon.recovering Ipc.compactJson firstTimes, rfl, hrows, hok, ?_⟩
  have hid : row.runId = "r" := by simpa [hrow] using hstored.1
  have hmem : row ∈ s.daemon.store.runs := hrow ▸ List.mem_singleton_self _
  obtain ⟨run, hfound, -⟩ := htaken.run _ <| RunStore.mem_unfinishedRuns.2
    ⟨row, hmem, List.all_eq_true.1 hstored.2 row hmem, rfl⟩
  rw [← hid]
  exact Option.isSome_iff_exists.2 ⟨run, hfound⟩

end Roster
