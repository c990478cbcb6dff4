import Roster.Data.Keyed
import Roster.Executor.Basic
import Roster.Resource.Pool

/-!
# Runs and jobs

The runtime state of a workflow run: its jobs, each with a state, the executions it holds and what
is known about how it went.  `Execution` names a node by its position in the controller's list.
-/

namespace Roster

/-- State of a job. -/
inductive JobState
  | pending
  | queued
  | running
  | succeeded
  | failed
  | skipped
  | cancelled
  | timedOut
  | interrupted
  deriving DecidableEq, Repr

namespace JobState

/-- No further transition is possible. -/
def isTerminal : JobState → Bool
  | .succeeded | .failed | .skipped | .cancelled | .timedOut | .interrupted => true
  | .pending | .queued | .running => false

/-- The name a state is stored under. -/
def asStr : JobState → String
  | .pending => "Pending"
  | .queued => "Queued"
  | .running => "Running"
  | .succeeded => "Succeeded"
  | .failed => "Failed"
  | .skipped => "Skipped"
  | .cancelled => "Cancelled"
  | .timedOut => "TimedOut"
  | .interrupted => "Interrupted"

/-- The state stored under a name. -/
def fromStr (s : String) : Option JobState :=
  if s = "Pending" then some .pending
  else if s = "Queued" then some .queued
  else if s = "Running" then some .running
  else if s = "Succeeded" then some .succeeded
  else if s = "Failed" then some .failed
  else if s = "Skipped" then some .skipped
  else if s = "Cancelled" then some .cancelled
  else if s = "TimedOut" then some .timedOut
  else if s = "Interrupted" then some .interrupted
  else none

/-- Numeric code of a state in an event. -/
def toCode : JobState → ℕ
  | .pending => 0
  | .queued => 1
  | .running => 2
  | .succeeded => 3
  | .failed => 4
  | .skipped => 5
  | .cancelled => 6
  | .timedOut => 7
  | .interrupted => 8

/-- Inverse of `toCode`. -/
def fromCode : ℕ → Option JobState
  | 0 => some .pending
  | 1 => some .queued
  | 2 => some .running
  | 3 => some .succeeded
  | 4 => some .failed
  | 5 => some .skipped
  | 6 => some .cancelled
  | 7 => some .timedOut
  | 8 => some .interrupted
  | _ => none

@[simp] theorem fromStr_asStr (state : JobState) : fromStr state.asStr = some state := by
  cases state <;> decide

@[simp] theorem fromCode_toCode (state : JobState) : fromCode state.toCode = some state := by
  cases state <;> rfl

end JobState

/-- Time since the epoch, in ns. -/
abbrev DateTime := ℤ

/-- One node's part of a job: where it runs, what it holds there, and its process. -/
structure Execution where
  node : ℕ
  allocation : Allocation
  handle : Option JobHandle
  deriving DecidableEq, Repr

/-- Runtime state of a job. -/
structure JobInstance where
  jobId : String
  jobSeq : ℕ
  spec : JobSpec
  state : JobState
  /-- Set when Running, taken on release. -/
  executions : List Execution
  /-- Set before a cancel, so that the exit it causes is not a failure. -/
  cancelling : Bool
  startedAt : Option DateTime
  endedAt : Option DateTime
  exitCode : Option Int32
  logPath : Option String
  /-- Nodes that turned the job down, and why. -/
  rejected : List (ℕ × String)
  /-- Which nodes turned it down, or why it failed. -/
  reason : Option String
  deriving DecidableEq

/-- `JobInstance::new`. -/
def JobInstance.new (spec : JobSpec) (jobSeq : ℕ) : JobInstance where
  jobId := spec.id
  jobSeq := jobSeq
  spec := spec
  state := .pending
  executions := []
  cancelling := false
  startedAt := none
  endedAt := none
  exitCode := none
  logPath := none
  rejected := []
  reason := none

/-- `JobInstance::rejected_by`. -/
def JobInstance.rejectedBy (job : JobInstance) (node : ℕ) : Bool :=
  job.rejected.any fun rejecter => decide (rejecter.1 = node)

/-- Runtime state of a workflow run; `jobs` is the map by job id. -/
structure WorkflowRun where
  runId : String
  runSeq : ℕ
  workflowName : String
  spec : WorkflowSpec
  jobs : List JobInstance
  createdAt : DateTime
  deriving DecidableEq

namespace WorkflowRun

/-- `WorkflowRun::new`. -/
def new (runId : String) (runSeq : ℕ) (spec : WorkflowSpec) (jobSeqStart : ℕ) (now : DateTime) :
    WorkflowRun where
  runId := runId
  runSeq := runSeq
  workflowName := spec.name
  spec := spec
  jobs := spec.jobs.zipIdx.foldl (fun jobs (jobSpec, i) =>
    Keyed.insert JobInstance.jobId jobs (.new jobSpec (jobSeqStart + i))) []
  createdAt := now

/-- `run.jobs.get(job_id)`. -/
def job? (run : WorkflowRun) (jobId : String) : Option JobInstance :=
  Keyed.get? JobInstance.jobId run.jobs jobId

/-- `run.jobs.get(job_id).map(|j| &j.state)`. -/
def stateOf (run : WorkflowRun) (jobId : String) : Option JobState :=
  (run.job? jobId).map JobInstance.state

end WorkflowRun

end Roster
