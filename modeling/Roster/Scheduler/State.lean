import Roster.Event
import Roster.Resource.Health
import Roster.Resource.Placement
import Roster.Store

/-!
# What the scheduler works on

`DaemonState` is what the scheduler shares with the request handlers, each field behind its lock.
The scheduler runs as one task that gives way between its locked sections; `Phase` is where in
`check_gpus` or `tick` it stands, with the local variables it carries to the next section.
-/

namespace Roster

/-- Monotonic time, in ns. -/
abbrev Instant := ℕ

/-- A node the scheduler can place on; `ssh` is `none` for this machine. -/
structure Node where
  name : String
  ssh : Option String
  deriving DecidableEq

/-- What stays the same while the controller runs. -/
structure Config where
  /-- In first-fit order. -/
  nodes : List Node
  home : String

/-- Shared daemon state. -/
structure DaemonState where
  /-- By run id. -/
  runs : List WorkflowRun
  /-- Same index as the nodes. -/
  pools : List ResourcePool
  /-- Cards on which a job was killed by a signal. -/
  requalify : List (ℕ × UInt32)
  store : RunStore
  /-- Events sent, oldest first. -/
  events : List JobEvent
  runCounter : ℕ
  jobCounter : ℕ
  deriving DecidableEq

/-- `roster qualify` running as an internal job that holds a whole card. -/
structure Qualification where
  node : ℕ
  gpu : UInt32
  allocation : Allocation
  handle : JobHandle
  started : Instant
  deriving DecidableEq

/-- What the GPU check carries from one run to the next. -/
structure GpuChecks where
  qualifying : List Qualification
  /-- When a card was last qualified, by card. -/
  lastQualified : List ((ℕ × UInt32) × Instant)
  deriving DecidableEq

/-- A card the check reserved for qualification. -/
structure ToQualify where
  node : ℕ
  gpu : GpuInfo
  retest : Bool
  allocation : Allocation
  deriving DecidableEq

/-- A job that was placed and is to be launched. -/
structure AdmitTask where
  runId : String
  jobInstance : JobInstance
  placement : List (ℕ × Allocation)
  deriving DecidableEq

/-- How the launches of a job went. -/
structure LaunchOutcome where
  runId : String
  jobId : String
  executions : List Execution
  result : Except ExecutorError Unit

/-- A running job to poll. -/
structure RunningJob where
  runId : String
  jobId : String
  node : ℕ
  handle : JobHandle
  cancelling : Bool
  deriving DecidableEq

/-- What a poll returned. -/
structure PollEntry where
  runId : String
  jobId : String
  cancelling : Bool
  result : Except ExecutorError PollResult
  /-- End of the log of a job that failed on its own. -/
  tail : Option String

def AdmitTask.key (task : AdmitTask) : JobKey := (task.runId, task.jobInstance.jobId)

def LaunchOutcome.key (outcome : LaunchOutcome) : JobKey := (outcome.runId, outcome.jobId)

def RunningJob.key (job : RunningJob) : JobKey := (job.runId, job.jobId)

def PollEntry.key (entry : PollEntry) : JobKey := (entry.runId, entry.jobId)

/-- What follows a flush. -/
inductive AfterFlush
  | cascading
  | admitting
  | collecting
  | idle
  deriving DecidableEq

/-- Where the scheduler stands. -/
inductive Phase
  /-- Between two calls. -/
  | idle
  /-- `finish_qualifications`: `todo` is still to be polled. -/
  | finishing (todo ended : List Qualification)
  /-- `check_gpus` takes its readings. -/
  | blocking
  /-- `check_gpus` launches qualifications. -/
  | qualifying (todo : List ToQualify)
  | flushing (toWrite : List JobKey) (next : AfterFlush)
  /-- Before `cascade_skipped`. -/
  | cascading
  /-- Before `advance_queued`. -/
  | admitting
  /-- `advance_queued`, phase 2. -/
  | launching (tasks : List AdmitTask) (outcomes : List LaunchOutcome)
  /-- Before `advance_running`. -/
  | collecting
  /-- `advance_running`, phase 2. -/
  | polling (todo : List RunningJob) (entries : List PollEntry)

def AfterFlush.phase : AfterFlush → Phase
  | .cascading => .cascading
  | .admitting => .admitting
  | .collecting => .collecting
  | .idle => .idle

/-- The scheduler's task and what it shares. -/
structure SchedulerState where
  daemon : DaemonState
  checks : GpuChecks
  phase : Phase

/-! ### Jobs over all runs -/

/-- `runs.get(run_id)`. -/
def findRun (runs : List WorkflowRun) (runId : String) : Option WorkflowRun :=
  Keyed.get? WorkflowRun.runId runs runId

/-- `runs.get(run_id)` and then `run.jobs.get(job_id)`. -/
def findJob (runs : List WorkflowRun) (key : JobKey) : Option JobInstance :=
  (findRun runs key.1).bind fun run => run.job? key.2

/-- Change the job of that key in place. -/
def updateJob (runs : List WorkflowRun) (key : JobKey) (f : JobInstance → JobInstance) :
    List WorkflowRun :=
  Keyed.modify WorkflowRun.runId runs key.1 fun run =>
    { run with jobs := Keyed.modify JobInstance.jobId run.jobs key.2 f }

/-- Every job with its run's id, in iteration order. -/
def allJobs (runs : List WorkflowRun) : List (String × JobInstance) :=
  runs.flatMap fun run => run.jobs.map fun job => (run.runId, job)

end Roster
