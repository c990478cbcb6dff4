import Roster.Paths
import Roster.Scheduler.Reason

/-!
# One tick

The locked sections of the four phases of `tick`, and the flush that follows each.  A section
collects decisions (`admitQueued`, `collectRunning`) or applies results that were gathered without a
lock (`applyLaunches`, `applyPolls`); the launches and polls between them are the environment's.
-/

namespace Roster

/-- `log_path`. -/
def logPath (home : String) (node : Node) (runId jobId : String) : String :=
  match node.ssh with
  | none => jobLogPath home runId jobId
  | some target => target ++ ":" ++ jobLogRelpath runId jobId

/-- `release`: return each execution's allocation to its own node's pool. -/
def releaseExecutions (pools : List ResourcePool) (executions : List Execution) :
    Exec (List ResourcePool) :=
  executions.foldlM (fun pools execution =>
    releaseOn pools (execution.node, execution.allocation)) pools

/-! ### Pending → Queued, and Skipped -/

/-- All dependencies succeeded. -/
def WorkflowRun.depsSucceeded (run : WorkflowRun) (job : JobInstance) : Bool :=
  job.spec.dependsOn.all fun dep => decide (run.stateOf dep = some .succeeded)

/-- A terminal state other than Succeeded. -/
def JobState.isBad : JobState → Bool
  | .failed | .skipped | .cancelled | .timedOut | .interrupted => true
  | .pending | .queued | .running | .succeeded => false

/-- Some dependency ended without success. -/
def WorkflowRun.depBad (run : WorkflowRun) (job : JobInstance) : Bool :=
  job.spec.dependsOn.any fun dep => (run.stateOf dep).any JobState.isBad

/-- Jobs of the run to queue. -/
def WorkflowRun.toQueue (run : WorkflowRun) : List String :=
  (run.jobs.filter fun job => decide (job.state = .pending) && run.depsSucceeded job).map
    JobInstance.jobId

/-- Jobs of the run to skip. -/
def WorkflowRun.toSkip (run : WorkflowRun) : List String :=
  (run.jobs.filter fun job =>
    decide (job.state = .pending ∨ job.state = .queued) && run.depBad job).map JobInstance.jobId

/-- Apply `f` to the jobs with these ids, one after the other. -/
def WorkflowRun.updateAll (run : WorkflowRun) (ids : List String)
    (f : JobInstance → JobInstance) : WorkflowRun :=
  { run with jobs := ids.foldl (fun jobs id => Keyed.modify JobInstance.jobId jobs id f) run.jobs }

/-- A Pending job whose dependencies succeeded. -/
def JobInstance.queue (job : JobInstance) : JobInstance := { job with state := .queued }

/-- A job that will never run. -/
def JobInstance.skip (now : DateTime) (job : JobInstance) : JobInstance :=
  { job with state := .skipped, endedAt := some now }

/-- `advance_pending` on one run. -/
def WorkflowRun.advancePending (run : WorkflowRun) : WorkflowRun :=
  run.updateAll run.toQueue JobInstance.queue

/-- `cascade_skipped` on one run. -/
def WorkflowRun.cascadeSkipped (now : DateTime) (run : WorkflowRun) : WorkflowRun :=
  run.updateAll run.toSkip (JobInstance.skip now)

/-- The locked section of `advance_pending`. -/
def advancePending (runs : List WorkflowRun) : List WorkflowRun × List JobKey :=
  (runs.map WorkflowRun.advancePending,
    runs.flatMap fun run => run.toQueue.map fun jobId => (run.runId, jobId))

/-- The locked section of `cascade_skipped`. -/
def cascadeSkipped (runs : List WorkflowRun) (now : DateTime) : List WorkflowRun × List JobKey :=
  (runs.map (WorkflowRun.cascadeSkipped now),
    runs.flatMap fun run => run.toSkip.map fun jobId => (run.runId, jobId))

/-! ### Queued → Running -/

/-- `advance_queued`, phase 1: place one job if it is Queued. -/
def admitJob (online : List Bool) (acc : List AdmitTask × List ResourcePool)
    (entry : String × JobInstance) : Exec (List AdmitTask × List ResourcePool) :=
  if entry.2.state ≠ .queued then .ok acc
  else do
    let usable := online.mapIdx fun node up => up && !entry.2.rejectedBy node
    let (placed, pools) ← place acc.2 usable [entry.2.spec.resources]
    match placed with
    | some placement => return (acc.1 ++ [⟨entry.1, entry.2, placement⟩], pools)
    | none => return (acc.1, pools)

/-- `advance_queued`, phase 1. -/
def admitQueued (runs : List WorkflowRun) (pools : List ResourcePool) (online : List Bool) :
    Exec (List AdmitTask × List ResourcePool) :=
  (allJobs runs).foldlM (admitJob online) ([], pools)

/-- `advance_queued`, phase 2, on one task: what the launches of its members returned. -/
def AdmitTask.outcome (task : AdmitTask) (launched : List (Except ExecutorError JobHandle)) :
    LaunchOutcome where
  runId := task.runId
  jobId := task.jobInstance.jobId
  executions := (task.placement.zip launched).map fun (member, result) =>
    ⟨member.1, member.2, result.toOption⟩
  result := launched.foldl (fun result launch =>
    match launch with
    | .ok _ => result
    | .error error => .error error) (.ok ())

/-- What a section that applies results carries: the state and the jobs to write. -/
structure Applied where
  daemon : DaemonState
  toWrite : List JobKey

/-- `job.rejected` with the nodes' names, for `job.reason`. -/
def rejectionReasons (nodes : List Node) (rejected : List (ℕ × String)) : Exec (List String) :=
  rejected.mapM fun (node, reason) => do
    let node ← Exec.index nodes node
    return node.name ++ ": " ++ reason

/-- Some node that has not turned the job down could ever take it. -/
def couldGoElsewhere (pools : List ResourcePool) (job : JobInstance) : Bool :=
  pools.zipIdx.any fun (pool, node) =>
    !job.rejectedBy node && job.spec.resources.gpuOptions.any pool.couldFit

/-- A Queued job whose launch succeeded. -/
def JobInstance.started (job : JobInstance) (executions : List Execution) (log : String)
    (now : DateTime) : JobInstance :=
  { job with
    state := .running, executions := executions, startedAt := some now, logPath := some log }

/-- A job that ends Failed. -/
def JobInstance.fail (job : JobInstance) (now : DateTime) : JobInstance :=
  { job with state := .failed, endedAt := some now }

/-- A job that was turned down once more; the reason names every node that did. -/
def JobInstance.turnedDown (job : JobInstance) (node : ℕ) (reason : String)
    (reasons : List String) : JobInstance :=
  { job with
    rejected := job.rejected ++ [(node, reason)]
    reason := some ("turned down by " ++ String.intercalate "; " reasons) }

/-- `advance_queued`, phase 3, on one outcome. -/
def applyLaunch (cfg : Config) (now : DateTime) (acc : Applied) (outcome : LaunchOutcome) :
    Exec Applied :=
  match findJob acc.daemon.runs outcome.key with
  | none => do
    let pools ← releaseExecutions acc.daemon.pools outcome.executions
    return { acc with daemon := { acc.daemon with pools := pools } }
  | some job =>
    match outcome.result with
    | .ok () => do
      let execution ← Exec.index outcome.executions 0
      let node ← Exec.index cfg.nodes execution.node
      let log := logPath cfg.home node outcome.runId outcome.jobId
      return {
        daemon := { acc.daemon with
          runs := updateJob acc.daemon.runs outcome.key fun job =>
            job.started outcome.executions log now }
        toWrite := acc.toWrite ++ [outcome.key] }
    -- the request never left, so the job can wait for another node
    | .error (.unreachable _) => do
      let pools ← releaseExecutions acc.daemon.pools outcome.executions
      return { acc with daemon := { acc.daemon with pools := pools } }
    -- the node won't run it: it waits for another, or fails once no other could take it
    | .error (.rejected reason) => do
      let execution ← Exec.index outcome.executions 0
      let pools ← releaseExecutions acc.daemon.pools outcome.executions
      let reasons ← rejectionReasons cfg.nodes (job.rejected ++ [(execution.node, reason)])
      let turnedDown := job.turnedDown execution.node reason reasons
      let job' := if couldGoElsewhere pools turnedDown then turnedDown else turnedDown.fail now
      return {
        daemon := { acc.daemon with
          runs := updateJob acc.daemon.runs outcome.key fun _ => job'
          pools := pools }
        toWrite := acc.toWrite ++ [outcome.key] }
    | .error error => do
      let pools ← releaseExecutions acc.daemon.pools outcome.executions
      return {
        daemon := { acc.daemon with
          runs := updateJob acc.daemon.runs outcome.key fun job =>
            addReason (job.fail now) error.toString
          pools := pools }
        toWrite := acc.toWrite ++ [outcome.key] }

/-- `advance_queued`, phase 3. -/
def applyLaunches (cfg : Config) (now : DateTime) (daemon : DaemonState)
    (outcomes : List LaunchOutcome) : Exec Applied :=
  outcomes.foldlM (applyLaunch cfg now) ⟨daemon, []⟩

/-! ### Running → ended -/

/-- `advance_running`, phase 1, on one job. -/
def runningJob? (entry : String × JobInstance) : Option RunningJob :=
  if entry.2.state = .running then
    entry.2.executions.head?.bind fun execution => execution.handle.map fun handle =>
      ⟨entry.1, entry.2.jobId, execution.node, handle, entry.2.cancelling⟩
  else none

/-- `advance_running`, phase 1. -/
def collectRunning (runs : List WorkflowRun) : List RunningJob :=
  (allJobs runs).filterMap runningJob?

/-- `advance_running`, phase 2, on one job: the tail of the log is read only for a job that failed
on its own. -/
def RunningJob.entry (job : RunningJob) (result : Except ExecutorError PollResult)
    (tail : Option String) : PollEntry where
  runId := job.runId
  jobId := job.jobId
  cancelling := job.cancelling
  result := result
  tail := match result with
    | .ok (.exited exitCode) => if exitCode ≠ 0 ∧ job.cancelling = false then tail else none
    | _ => none

/-- The cards an exit by a signal asks to test, unless a cancel sent it. -/
def requalifyOf (executions : List Execution) : List (ℕ × UInt32) :=
  executions.flatMap fun execution =>
    execution.allocation.gpus.map fun gpu => (execution.node, gpu.index)

/-- `HashSet::extend`. -/
def extendSet (set new : List (ℕ × UInt32)) : List (ℕ × UInt32) :=
  set ++ new.filter fun key => !set.contains key

/-- A Running job whose process exited. -/
def JobInstance.exited (job : JobInstance) (exitCode : Int32) (cancelling : Bool)
    (tail : Option String) (now : DateTime) : JobInstance :=
  let job := { job with executions := [], exitCode := some exitCode, endedAt := some now }
  if cancelling then { job with state := .cancelled }
  else if exitCode = 0 then { job with state := .succeeded }
  else { addReason job (exitReason exitCode tail) with state := .failed }

section Exited

variable (job : JobInstance) (exitCode : Int32) (cancelling : Bool) (tail : Option String)
  (now : DateTime)

/-- An exit ends the job and takes what it held; what the job is stays. -/
theorem JobInstance.exited_same :
    let job' := job.exited exitCode cancelling tail now
    job'.jobId = job.jobId ∧ job'.spec = job.spec ∧ job'.rejected = job.rejected ∧
      job'.cancelling = job.cancelling ∧ job'.executions = [] ∧ job'.state.isTerminal = true := by
  unfold exited
  split
  · exact ⟨rfl, rfl, rfl, rfl, rfl, rfl⟩
  · split <;> exact ⟨rfl, rfl, rfl, rfl, rfl, rfl⟩

@[simp] theorem JobInstance.exited_jobId :
    (job.exited exitCode cancelling tail now).jobId = job.jobId :=
  (job.exited_same exitCode cancelling tail now).1

@[simp] theorem JobInstance.exited_spec :
    (job.exited exitCode cancelling tail now).spec = job.spec :=
  (job.exited_same exitCode cancelling tail now).2.1

@[simp] theorem JobInstance.exited_rejected :
    (job.exited exitCode cancelling tail now).rejected = job.rejected :=
  (job.exited_same exitCode cancelling tail now).2.2.1

@[simp] theorem JobInstance.exited_cancelling :
    (job.exited exitCode cancelling tail now).cancelling = job.cancelling :=
  (job.exited_same exitCode cancelling tail now).2.2.2.1

@[simp] theorem JobInstance.exited_executions :
    (job.exited exitCode cancelling tail now).executions = [] :=
  (job.exited_same exitCode cancelling tail now).2.2.2.2.1

@[simp] theorem JobInstance.exited_terminal :
    (job.exited exitCode cancelling tail now).state.isTerminal = true :=
  (job.exited_same exitCode cancelling tail now).2.2.2.2.2

end Exited

/-- A Running job whose node answered a poll with an error. -/
def JobInstance.pollFailed (job : JobInstance) (error : ExecutorError) (now : DateTime) :
    JobInstance :=
  addReason { job.fail now with executions := [] } ("poll failed: " ++ error.toString)

/-- `advance_running`, phase 3, on one entry. -/
def applyPoll (now : DateTime) (acc : Applied) (entry : PollEntry) : Exec Applied :=
  match findJob acc.daemon.runs entry.key with
  | none => .ok acc
  | some job =>
    match entry.result with
    -- nothing is known, so the job stays Running and keeps its resources
    | .error (.unreachable _) => .ok acc
    | .error error => do
      let pools ← releaseExecutions acc.daemon.pools job.executions
      return {
        daemon := { acc.daemon with
          runs := updateJob acc.daemon.runs entry.key fun job => job.pollFailed error now
          pools := pools }
        toWrite := acc.toWrite ++ [entry.key] }
    | .ok .running => .ok acc
    | .ok (.exited exitCode) => do
      let requalify := if exitCode = -1 ∧ entry.cancelling = false then
        extendSet acc.daemon.requalify (requalifyOf job.executions) else acc.daemon.requalify
      let pools ← releaseExecutions acc.daemon.pools job.executions
      return {
        daemon := { acc.daemon with
          runs := updateJob acc.daemon.runs entry.key fun job =>
            job.exited exitCode entry.cancelling entry.tail now
          pools := pools
          requalify := requalify }
        toWrite := acc.toWrite ++ [entry.key] }

/-- `advance_running`, phase 3. -/
def applyPolls (now : DateTime) (daemon : DaemonState) (entries : List PollEntry) :
    Exec Applied :=
  entries.foldlM (applyPoll now) ⟨daemon, []⟩

/-! ### Writing and telling -/

/-- Name of the node a job runs on, if it runs. -/
def nodeName (cfg : Config) (job : JobInstance) : Exec (Option String) :=
  match job.executions.head? with
  | none => .ok none
  | some execution => (fun node => some node.name) <$> Exec.index cfg.nodes execution.node

/-- `flush_transitions` on one job: write its row, unless the store fails, and send its event. -/
def flushTransition (cfg : Config) (daemon : DaemonState) (key : JobKey) (written : Bool)
    (emittedAt : ℕ) : Exec DaemonState :=
  match findRun daemon.runs key.1 with
  | none => .ok daemon
  | some run =>
    match run.job? key.2 with
    | none => .ok daemon
    | some job => do
      let node ← nodeName cfg job
      return { daemon with
        store := if written then daemon.store.upsertJob key.1 job node else daemon.store
        events := daemon.events ++ [.new run.runSeq job.jobSeq job.state emittedAt] }

/-! ### Requests -/

/-- Some node could ever take the job. -/
def fitsSomeNode (pools : List ResourcePool) (job : JobSpec) : Bool :=
  pools.any fun pool => job.resources.gpuOptions.any pool.couldFit

/-- `handle_submit`, once the document is accepted: number the run and its jobs, write them as far
as the store does, and hand the run to the scheduler. -/
def submit (daemon : DaemonState) (runId : String) (spec : WorkflowSpec) (now : DateTime)
    (runWritten : Bool) (jobWritten : String → Bool) : DaemonState :=
  let run := WorkflowRun.new runId daemon.runCounter spec daemon.jobCounter now
  let store := if runWritten then daemon.store.upsertRun run else daemon.store
  let store := run.jobs.foldl (fun store job =>
    if jobWritten job.jobId then store.upsertJob runId job none else store) store
  { daemon with
    runs := Keyed.insert WorkflowRun.runId daemon.runs run
    store := store
    runCounter := daemon.runCounter + 1
    jobCounter := daemon.jobCounter + spec.jobs.length }

/-- The locked section of a Cancel request: mark the run's Running jobs. -/
def cancelRun (runs : List WorkflowRun) (runId : String) : List WorkflowRun :=
  Keyed.modify WorkflowRun.runId runs runId fun run =>
    { run with jobs := run.jobs.map fun job =>
        if job.state = .running then { job with cancelling := true } else job }

end Roster
