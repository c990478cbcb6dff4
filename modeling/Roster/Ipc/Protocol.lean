import Roster.Data.Codec
import Roster.Resource.Health
import Roster.Resource.Pool
import Roster.Workflow.Parse

/-!
# The messages between daemons and their clients

One document per message.  A request or a response is a mapping whose entry `type` names its kind,
beside the entries of its content; the contents are derived structures.
-/

namespace Roster

open Serde

/-! ### Jobs and resources -/

/-- The entries of a `ResourceSpec`. -/
def ResourceSpec.entries (spec : ResourceSpec) : List (Value Scalar × Value Scalar) :=
  [(key "cpu", Codec.uint32.write spec.cpu), (key "memory_mb", Codec.uint64.write spec.memoryMb),
    (key "gpu", Codec.uint32.write spec.gpu), (key "vram_mb", Codec.uint64.write spec.vramMb)]

theorem visit_resourceFields (spec : ResourceSpec) :
    visitMap scalars (resourceFields scalars) true {} spec.entries =
      .ok ⟨spec.cpu, spec.memoryMb, spec.gpu, spec.vramMb⟩ := by
  simp only [ResourceSpec.entries, visitMap_cons, visitMap_nil, visitEntry, name?_key,
    resourceFields, Keyed.get?_cons, Field.ofOption, Codec.read_uint32, Codec.read_uint64,
    reduceIte, String.reduceEq, Option.isSome_none, Bool.false_eq_true, pure, Except.pure, ok_bind]

/-- `ResourceSpec`, which is read as in a workflow document. -/
def ResourceSpec.codec : Codec Error ResourceSpec where
  write spec := .map spec.entries
  read := readResourceSpec scalars
  read_write spec := by
    rw [readResourceSpec, Scalars.entries, ok_bind, visit_resourceFields]
    rfl
  named spec := .map (by simp [ResourceSpec.entries]) (by simp [ResourceSpec.entries, Codec.named])

/-- The entries of a `JobSpec`. -/
def JobSpec.entries (spec : JobSpec) : List (Value Scalar × Value Scalar) :=
  [(key "id", Codec.text.write spec.id), (key "command", Codec.text.write spec.command),
    (key "depends_on", Codec.text.list.write spec.dependsOn),
    (key "resources", ResourceSpec.codec.write spec.resources)]

theorem visit_jobFields (spec : JobSpec) :
    visitMap scalars (jobFields scalars) false {} spec.entries =
      .ok ⟨spec.id, spec.command, spec.dependsOn, spec.resources⟩ := by
  have hdeps : (scalars.items (Codec.text.list.write spec.dependsOn) >>= fun items =>
      items.mapM (Scalars.read scalars.asString)) = .ok spec.dependsOn :=
    Codec.text.list.read_write _
  have hresources : readResourceSpec scalars (ResourceSpec.codec.write spec.resources) =
    .ok spec.resources := ResourceSpec.codec.read_write _
  simp only [JobSpec.entries, visitMap_cons, visitMap_nil, visitEntry, name?_key, jobFields,
    Keyed.get?_cons, Field.ofOption, Codec.read_text, hdeps, hresources, reduceIte,
    String.reduceEq, Option.isSome_none, Bool.false_eq_true, pure, Except.pure, ok_bind]

/-- `JobSpec`. -/
def JobSpec.codec : Codec Error JobSpec where
  write spec := .map spec.entries
  read := readJobSpec scalars
  read_write spec := by
    rw [readJobSpec, Scalars.entries, ok_bind, visit_jobFields]
    rfl
  named spec := .map (by simp [JobSpec.entries]) (by simp [JobSpec.entries, Codec.named])

/-- `GpuAllocation`. -/
def GpuAllocation.derived : Derived GpuAllocation where
  size := 2
  name := !["index", "vram_mb"]
  member
    | 0 => .required .uint32
    | 1 => .required .uint64
  get card
    | 0 => card.index
    | 1 => card.vramMb
  build v := ⟨v 0, v 1⟩
  build_get _ := rfl

/-- `Allocation`. -/
def Allocation.derived : Derived Allocation where
  size := 3
  name := !["cpu", "memory_mb", "gpus"]
  member
    | 0 => .required .uint32
    | 1 => .required .uint64
    | 2 => .required GpuAllocation.derived.codec.list
  get alloc
    | 0 => alloc.cpu
    | 1 => alloc.memoryMb
    | 2 => alloc.gpus
  build v := ⟨v 0, v 1, v 2⟩
  build_get _ := rfl

/-- `GpuInfo`. -/
def GpuInfo.derived : Derived GpuInfo where
  size := 4
  name := !["index", "name", "vram_mb", "uuid"]
  member
    | 0 => .required .uint32
    | 1 => .required .text
    | 2 => .required .uint64
    | 3 => .withDefault .text ""
  get gpu
    | 0 => gpu.index
    | 1 => gpu.name
    | 2 => gpu.vramMb
    | 3 => gpu.uuid
  build v := ⟨v 0, v 1, v 2, v 3⟩
  build_get _ := rfl

/-- `SystemResources`. -/
def SystemResources.derived : Derived SystemResources where
  size := 3
  name := !["cpu_cores", "memory_mb", "gpus"]
  member
    | 0 => .required .uint32
    | 1 => .required .uint64
    | 2 => .required GpuInfo.derived.codec.list
  get resources
    | 0 => resources.cpuCores
    | 1 => resources.memoryMb
    | 2 => resources.gpus
  build v := ⟨v 0, v 1, v 2⟩
  build_get _ := rfl

/-! ### Reports -/

/-- How times are written: a text for each, from which it is read back. -/
structure Rfc3339 where
  toText : DateTime → String
  ofText : String → Option DateTime
  ofText_toText : ∀ time, ofText (toText time) = some time

/-- `DateTime<Utc>`. -/
def Rfc3339.codec (times : Rfc3339) : Codec Error DateTime :=
  .scalar (fun s => s.asText.bind times.ofText) (fun time => .text (times.toText time))
    times.ofText_toText

namespace Ipc

/-- All readings of one GPU. -/
structure GpuHealth extends Roster.GpuHealth where
  temperatureC : Option UInt32 := none
  powerW : Option UInt32 := none
  powerLimitW : Option UInt32 := none
  usedVramMb : Option UInt64 := none
  busyPercent : Option UInt32 := none
  processes : Option UInt32 := none
  deriving DecidableEq

/-- What a machine's daemon reports about itself. -/
structure NodeInfo where
  version : String
  pid : UInt32
  socket : String
  runningJobs : UInt64
  jobsSurviveRestart : Bool
  resources : SystemResources
  gpuHealth : List GpuHealth
  deriving DecidableEq

/-- One node as a daemon sees it. -/
structure NodeStatus where
  name : String
  ssh : Option String
  online : Bool
  state : String
  since : DateTime
  runningJobs : UInt64
  total : SystemResources
  freeCpu : UInt32
  freeMemoryMb : UInt64
  freeVramMb : List UInt64
  gpuHealth : List GpuHealth
  deriving DecidableEq

structure RunSummary where
  runId : String := ""
  workflowName : String := ""
  status : String := ""
  deriving DecidableEq

structure JobDetail where
  jobId : String := ""
  state : String := ""
  exitCode : Option Int64 := none
  startedAt : Option String := none
  endedAt : Option String := none
  logPath : Option String := none
  reason : Option String := none
  deriving DecidableEq

structure RunDetail where
  runId : String := ""
  workflowName : String := ""
  status : String := ""
  createdAt : String := ""
  jobs : List JobDetail := []
  deriving DecidableEq

/-- `Option<u32>`. -/
def optUint32 : Codec Error (Option UInt32) := Codec.uint32.option fun _ => rfl

/-- `Option<u64>`. -/
def optUint64 : Codec Error (Option UInt64) := Codec.uint64.option fun _ => rfl

/-- `Option<String>`. -/
def optText : Codec Error (Option String) := Codec.text.option fun _ => rfl

variable (times : Rfc3339)

def GpuHealth.derived : Derived GpuHealth where
  size := 11
  name := !["index", "temperature_c", "power_w", "power_limit_w", "used_vram_mb", "busy_percent",
    "throttled", "processes", "process_vram_mb", "quarantined", "tested_at"]
  member
    | 0 => .required .uint32
    | 1 | 2 | 3 | 5 | 7 => .withDefault optUint32 none
    | 4 | 8 => .withDefault optUint64 none
    | 6 => .required Codec.text.list
    | 9 => .withDefault optText none
    | 10 => .withDefault (times.codec.option fun _ => rfl) none
  get health
    | 0 => health.index
    | 1 => health.temperatureC
    | 2 => health.powerW
    | 3 => health.powerLimitW
    | 4 => health.usedVramMb
    | 5 => health.busyPercent
    | 6 => health.throttled
    | 7 => health.processes
    | 8 => health.processVramMb
    | 9 => health.quarantined
    | 10 => health.testedAt
  build v := {
    index := v 0, temperatureC := v 1, powerW := v 2, powerLimitW := v 3, usedVramMb := v 4,
    busyPercent := v 5, throttled := v 6, processes := v 7, processVramMb := v 8,
    quarantined := v 9, testedAt := v 10 }
  build_get _ := rfl

def NodeInfo.names : Fin 7 → String :=
  !["version", "pid", "socket", "running_jobs", "jobs_survive_restart", "resources", "gpu_health"]

theorem NodeInfo.names_untagged : ∀ i, NodeInfo.names i ≠ "type" := by decide

def NodeInfo.derived : Derived NodeInfo where
  size := 7
  name := NodeInfo.names
  member
    | 0 => .required .text
    | 1 => .required .uint32
    | 2 => .required .text
    | 3 => .required .uint64
    | 4 => .withDefault .bool false
    | 5 => .required SystemResources.derived.codec
    | 6 => .withDefault (GpuHealth.derived times).codec.list []
  get info
    | 0 => info.version
    | 1 => info.pid
    | 2 => info.socket
    | 3 => info.runningJobs
    | 4 => info.jobsSurviveRestart
    | 5 => info.resources
    | 6 => info.gpuHealth
  build v := ⟨v 0, v 1, v 2, v 3, v 4, v 5, v 6⟩
  build_get _ := rfl

def NodeStatus.derived : Derived NodeStatus where
  size := 11
  name := !["name", "ssh", "online", "state", "since", "running_jobs", "total", "free_cpu",
    "free_memory_mb", "free_vram_mb", "gpu_health"]
  member
    | 0 => .required .text
    | 1 => .withDefault optText none
    | 2 => .required .bool
    | 3 => .required .text
    | 4 => .required times.codec
    | 5 => .required .uint64
    | 6 => .required SystemResources.derived.codec
    | 7 => .required .uint32
    | 8 => .required .uint64
    | 9 => .required Codec.uint64.list
    | 10 => .required (GpuHealth.derived times).codec.list
  get status
    | 0 => status.name
    | 1 => status.ssh
    | 2 => status.online
    | 3 => status.state
    | 4 => status.since
    | 5 => status.runningJobs
    | 6 => status.total
    | 7 => status.freeCpu
    | 8 => status.freeMemoryMb
    | 9 => status.freeVramMb
    | 10 => status.gpuHealth
  build v := ⟨v 0, v 1, v 2, v 3, v 4, v 5, v 6, v 7, v 8, v 9, v 10⟩
  build_get _ := rfl

def RunSummary.derived : Derived RunSummary where
  size := 3
  name := !["run_id", "workflow_name", "status"]
  member _ := .withDefault .text ""
  get summary
    | 0 => summary.runId
    | 1 => summary.workflowName
    | 2 => summary.status
  build v := ⟨v 0, v 1, v 2⟩
  build_get _ := rfl

def JobDetail.derived : Derived JobDetail where
  size := 7
  name := !["job_id", "state", "exit_code", "started_at", "ended_at", "log_path", "reason"]
  member
    | 0 | 1 => .withDefault .text ""
    | 2 => .withDefault (Codec.int64.option fun _ => rfl) none
    | 3 | 4 | 5 | 6 => .withDefault optText none
  get detail
    | 0 => detail.jobId
    | 1 => detail.state
    | 2 => detail.exitCode
    | 3 => detail.startedAt
    | 4 => detail.endedAt
    | 5 => detail.logPath
    | 6 => detail.reason
  build v := ⟨v 0, v 1, v 2, v 3, v 4, v 5, v 6⟩
  build_get _ := rfl

def RunDetail.derived : Derived RunDetail where
  size := 5
  name := !["run_id", "workflow_name", "status", "created_at", "jobs"]
  member
    | 0 | 1 | 2 | 3 => .withDefault .text ""
    | 4 => .withDefault JobDetail.derived.codec.list []
  get detail
    | 0 => detail.runId
    | 1 => detail.workflowName
    | 2 => detail.status
    | 3 => detail.createdAt
    | 4 => detail.jobs
  build v := ⟨v 0, v 1, v 2, v 3, v 4⟩
  build_get _ := rfl

/-! ### Requests -/

/-- The requests to a daemon. -/
inductive Request
  | ping
  | submit (specYaml : String)
  | ps
  | status (runId : String)
  | logs (runId jobId : String)
  | cancel (runId : String)
  | info
  | nodes
  | clearGpu (node : Option String) (gpu : UInt32)
  | gpuQualified (index : UInt32) (passed : Bool) (reason : String)
  | launch (runId : String) (job : JobSpec) (allocation : Allocation)
  | poll (runId jobId : String)
  | kill (runId jobId : String)
  | logTail (runId jobId : String) (bytes : UInt64)
  deriving DecidableEq

/-- The content of a request about one job: `run_id` and `job_id`. -/
def aboutJob : Derived (String × String) where
  size := 2
  name := !["run_id", "job_id"]
  member _ := .required .text
  get a
    | 0 => a.1
    | 1 => a.2
  build v := (v 0, v 1)
  build_get _ := rfl

def clearGpuContent : Derived (Option String × UInt32) where
  size := 2
  name := !["node", "gpu"]
  member
    | 0 => .withDefault optText none
    | 1 => .required .uint32
  get a
    | 0 => a.1
    | 1 => a.2
  build v := (v 0, v 1)
  build_get _ := rfl

def gpuQualifiedContent : Derived (UInt32 × Bool × String) where
  size := 3
  name := !["index", "passed", "reason"]
  member
    | 0 => .required .uint32
    | 1 => .required .bool
    | 2 => .required .text
  get a
    | 0 => a.1
    | 1 => a.2.1
    | 2 => a.2.2
  build v := (v 0, v 1, v 2)
  build_get _ := rfl

def launchContent : Derived (String × JobSpec × Allocation) where
  size := 3
  name := !["run_id", "job", "allocation"]
  member
    | 0 => .required .text
    | 1 => .required JobSpec.codec
    | 2 => .required Allocation.derived.codec
  get a
    | 0 => a.1
    | 1 => a.2.1
    | 2 => a.2.2
  build v := (v 0, v 1, v 2)
  build_get _ := rfl

def logTailContent : Derived (String × String × UInt64) where
  size := 3
  name := !["run_id", "job_id", "bytes"]
  member
    | 0 | 1 => .required .text
    | 2 => .required .uint64
  get a
    | 0 => a.1
    | 1 => a.2.1
    | 2 => a.2.2
  build v := (v 0, v 1, v 2)
  build_get _ := rfl

def Request.tagged : Tagged Request where
  tag := "type"
  size := 14
  name := !["Ping", "Submit", "Ps", "Status", "Logs", "Cancel", "Info", "Nodes", "ClearGpu",
    "GpuQualified", "Launch", "Poll", "Kill", "LogTail"]
  variant
    | 0 => ⟨_, .unit, fun _ => .ping⟩
    | 1 => ⟨_, .one "spec_yaml" (.required .text), .submit⟩
    | 2 => ⟨_, .unit, fun _ => .ps⟩
    | 3 => ⟨_, .one "run_id" (.required .text), .status⟩
    | 4 => ⟨_, aboutJob, fun a => .logs a.1 a.2⟩
    | 5 => ⟨_, .one "run_id" (.required .text), .cancel⟩
    | 6 => ⟨_, .unit, fun _ => .info⟩
    | 7 => ⟨_, .unit, fun _ => .nodes⟩
    | 8 => ⟨_, clearGpuContent, fun a => .clearGpu a.1 a.2⟩
    | 9 => ⟨_, gpuQualifiedContent, fun a => .gpuQualified a.1 a.2.1 a.2.2⟩
    | 10 => ⟨_, launchContent, fun a => .launch a.1 a.2.1 a.2.2⟩
    | 11 => ⟨_, aboutJob, fun a => .poll a.1 a.2⟩
    | 12 => ⟨_, aboutJob, fun a => .kill a.1 a.2⟩
    | 13 => ⟨_, logTailContent, fun a => .logTail a.1 a.2.1 a.2.2⟩
  untagged := by decide
  split
    | .ping => ⟨0, ()⟩
    | .submit specYaml => ⟨1, specYaml⟩
    | .ps => ⟨2, ()⟩
    | .status runId => ⟨3, runId⟩
    | .logs runId jobId => ⟨4, runId, jobId⟩
    | .cancel runId => ⟨5, runId⟩
    | .info => ⟨6, ()⟩
    | .nodes => ⟨7, ()⟩
    | .clearGpu node gpu => ⟨8, node, gpu⟩
    | .gpuQualified index passed reason => ⟨9, index, passed, reason⟩
    | .launch runId job allocation => ⟨10, runId, job, allocation⟩
    | .poll runId jobId => ⟨11, runId, jobId⟩
    | .kill runId jobId => ⟨12, runId, jobId⟩
    | .logTail runId jobId bytes => ⟨13, runId, jobId, bytes⟩
  wrap_split request := by cases request <;> rfl

/-! ### Responses -/

/-- The responses of a daemon. -/
inductive Response
  | pong
  | submitted (runId : String)
  | psResult (runs : List RunSummary)
  | statusResult (run : RunDetail)
  | log (text : String)
  | cancelled (runId : String)
  | error (message : String)
  | info (node : NodeInfo)
  | nodes (statuses : List NodeStatus)
  | gpuCleared
  | recorded
  | launched (hostPid : UInt32)
  | rejected (reason : String)
  | polled (exitCode : Option Int32)
  | killed
  deriving DecidableEq

def Response.tagged : Tagged Response where
  tag := "type"
  size := 15
  name := !["Pong", "Submitted", "PsResult", "StatusResult", "Log", "Cancelled", "Error", "Info",
    "Nodes", "GpuCleared", "Recorded", "Launched", "Rejected", "Polled", "Killed"]
  variant
    | 0 => ⟨_, .unit, fun _ => .pong⟩
    | 1 => ⟨_, .one "run_id" (.required .text), .submitted⟩
    | 2 => ⟨_, .one "runs" (.required RunSummary.derived.codec.list), .psResult⟩
    | 3 => ⟨_, .one "run" (.required RunDetail.derived.codec), .statusResult⟩
    | 4 => ⟨_, .one "text" (.required .text), .log⟩
    | 5 => ⟨_, .one "run_id" (.required .text), .cancelled⟩
    | 6 => ⟨_, .one "message" (.required .text), .error⟩
    | 7 => ⟨_, NodeInfo.derived times, .info⟩
    | 8 => ⟨_, .one "nodes" (.required (NodeStatus.derived times).codec.list), .nodes⟩
    | 9 => ⟨_, .unit, fun _ => .gpuCleared⟩
    | 10 => ⟨_, .unit, fun _ => .recorded⟩
    | 11 => ⟨_, .one "host_pid" (.required .uint32), .launched⟩
    | 12 => ⟨_, .one "reason" (.required .text), .rejected⟩
    | 13 => ⟨_, .one "exit_code" (.withDefault (Codec.int32.option fun _ => rfl) none), .polled⟩
    | 14 => ⟨_, .unit, fun _ => .killed⟩
  untagged
    | 0 | 9 | 10 | 14 => Derived.unit_untagged
    | 1 | 2 | 3 | 4 | 5 | 6 | 8 | 11 | 12 | 13 => Derived.one_untagged (by decide)
    | 7 => NodeInfo.names_untagged
  split
    | .pong => ⟨0, ()⟩
    | .submitted runId => ⟨1, runId⟩
    | .psResult runs => ⟨2, runs⟩
    | .statusResult run => ⟨3, run⟩
    | .log text => ⟨4, text⟩
    | .cancelled runId => ⟨5, runId⟩
    | .error message => ⟨6, message⟩
    | .info node => ⟨7, node⟩
    | .nodes statuses => ⟨8, statuses⟩
    | .gpuCleared => ⟨9, ()⟩
    | .recorded => ⟨10, ()⟩
    | .launched hostPid => ⟨11, hostPid⟩
    | .rejected reason => ⟨12, reason⟩
    | .polled exitCode => ⟨13, exitCode⟩
    | .killed => ⟨14, ()⟩
  wrap_split response := by cases response <;> rfl

end Ipc

end Roster
