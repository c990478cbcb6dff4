import Roster.Workflow.Model
import Mathlib.Data.List.Sort

/-!
# The store

The `runs` and `jobs` tables.  A job's row keeps the node's name and the allocation only while the
job holds one, so that a restarted controller can take a running job back.
-/

namespace Roster

/-- A row of the `jobs` table. -/
structure JobRow where
  runId : String
  jobId : String
  state : String
  exitCode : Option Int32
  startedAt : Option DateTime
  endedAt : Option DateTime
  logPath : Option String
  /-- Name of the node it runs on. -/
  node : Option String
  /-- What it holds there. -/
  allocation : Option Allocation
  reason : Option String
  deriving DecidableEq

/-- Name of a job over all runs. -/
abbrev JobKey := String × String

def JobRow.key (row : JobRow) : JobKey := (row.runId, row.jobId)

/-- A row of the `runs` table; `spec` is missing in a run stored before specs were kept. -/
structure RunRow where
  runId : String
  workflowName : String
  createdAt : DateTime
  spec : Option WorkflowSpec
  deriving DecidableEq

/-- The two tables. -/
structure RunStore where
  runs : List RunRow
  jobs : List JobRow
  deriving DecidableEq

/-- A run whose jobs had not all ended when the daemon stopped. -/
structure SavedRun where
  runId : String
  createdAt : DateTime
  spec : Option WorkflowSpec
  jobs : List JobRow

namespace RunStore

/-- `RunStore::upsert_run`. -/
def upsertRun (store : RunStore) (run : WorkflowRun) : RunStore :=
  { store with
    runs := Keyed.insert RunRow.runId store.runs
      ⟨run.runId, run.workflowName, run.createdAt, some run.spec⟩ }

/-- The row of a job; `node` names where it runs. -/
def rowOf (runId : String) (job : JobInstance) (node : Option String) : JobRow where
  runId := runId
  jobId := job.jobId
  state := job.state.asStr
  exitCode := job.exitCode
  startedAt := job.startedAt
  endedAt := job.endedAt
  logPath := job.logPath
  node := node
  allocation := job.executions.head?.map Execution.allocation
  reason := job.reason

/-- `RunStore::upsert_job`. -/
def upsertJob (store : RunStore) (runId : String) (job : JobInstance) (node : Option String) :
    RunStore :=
  { store with jobs := Keyed.insert JobRow.key store.jobs (rowOf runId job node) }

/-- `RunStore::interrupt`. -/
def interrupt (store : RunStore) (runId jobId : String) (now : DateTime) : RunStore :=
  { store with
    jobs := Keyed.modify JobRow.key store.jobs (runId, jobId) fun row =>
      { row with
        state := "Interrupted", endedAt := some now, node := none, allocation := none } }

/-- The rows of a run's jobs. -/
def jobsOf (store : RunStore) (runId : String) : List JobRow :=
  store.jobs.filter fun row => decide (row.runId = runId)

/-- The run has a job that has not ended. -/
def unfinished (store : RunStore) (run : RunRow) : Bool :=
  (store.jobsOf run.runId).any fun row =>
    decide (row.state = "Pending" ∨ row.state = "Queued" ∨ row.state = "Running")

/-- `RunStore::unfinished_runs`, oldest first. -/
def unfinishedRuns (store : RunStore) : List SavedRun :=
  ((store.runs.filter store.unfinished).mergeSort fun a b => decide (a.createdAt ≤ b.createdAt)).map
    fun run => ⟨run.runId, run.createdAt, run.spec, store.jobsOf run.runId⟩

end RunStore

end Roster
