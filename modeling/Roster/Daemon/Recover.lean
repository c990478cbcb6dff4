import Roster.Scheduler.State

/-!
# Taking runs back

After a restart the controller takes back the runs that had not ended: pending and queued jobs
carry on, running jobs keep what they hold and are polled where they run, and one that cannot be
found again ends as Interrupted.  What `ShellExecutor::find` returns for a job of this machine is
the environment's.
-/

namespace Roster

/-- `restore`: the job's last stored state over the fresh instance built from the spec. -/
def JobInstance.restore (job : JobInstance) (row : JobRow) : JobInstance :=
  { job with
    state := (JobState.fromStr row.state).getD .pending
    exitCode := row.exitCode
    startedAt := row.startedAt
    endedAt := row.endedAt
    logPath := row.logPath
    reason := row.reason }

/-- `reattach`: a running job's execution again; `none` when its node is no longer in nodes.yaml,
or on this machine nothing of the job is left. -/
def reattach (nodes : List Node) (found : JobKey → Option JobHandle) (runId : String)
    (row : JobRow) : Option Execution := do
  let node ← nodes.findIdx? fun node => decide (some node.name = row.node)
  let allocation ← row.allocation
  let ssh ← nodes[node]?.map Node.ssh
  let handle ← match ssh with
    | none => found (runId, row.jobId)
    | some _ => some (.remote 0 runId row.jobId)
  return ⟨node, allocation, some handle⟩

/-- What taking back one run works on. -/
structure TakingBack where
  jobs : List JobInstance
  pools : List ResourcePool
  store : RunStore

/-- `take_back_runs` on one saved job. -/
def takeBackJob (nodes : List Node) (found : JobKey → Option JobHandle) (runId : String)
    (now : DateTime) (acc : TakingBack) (row : JobRow) : Exec TakingBack :=
  match Keyed.get? JobInstance.jobId acc.jobs row.jobId with
  | none => .ok acc
  | some job =>
    let job := job.restore row
    let put (job : JobInstance) := Keyed.modify JobInstance.jobId acc.jobs row.jobId fun _ => job
    if job.state ≠ .running then .ok { acc with jobs := put job }
    else
      match reattach nodes found runId row with
      | some execution => do
        let pools ← Exec.update acc.pools execution.node fun pool =>
          .ok (pool.book execution.allocation)
        return { acc with jobs := put { job with executions := [execution] }, pools := pools }
      | none => .ok { acc with
        jobs := put { job with state := .interrupted, endedAt := some now }
        store := acc.store.interrupt runId job.jobId now }

/-- A run stored without its spec: its jobs that had not ended are interrupted. -/
def interruptJobs (store : RunStore) (saved : SavedRun) (now : DateTime) : RunStore :=
  saved.jobs.foldl (fun store row =>
    if (JobState.fromStr row.state).any fun state => !state.isTerminal then
      store.interrupt saved.runId row.jobId now
    else store) store

/-- `take_back_runs` on one saved run. -/
def takeBackRun (cfg : Config) (found : JobKey → Option JobHandle) (now : DateTime)
    (daemon : DaemonState) (saved : SavedRun) : Exec DaemonState :=
  match saved.spec with
  | none => .ok { daemon with store := interruptJobs daemon.store saved now }
  | some spec => do
    let run := { WorkflowRun.new saved.runId daemon.runCounter spec daemon.jobCounter now with
      createdAt := saved.createdAt }
    let taken ← saved.jobs.foldlM (takeBackJob cfg.nodes found saved.runId now)
      ⟨run.jobs, daemon.pools, daemon.store⟩
    return { daemon with
      runs := Keyed.insert WorkflowRun.runId daemon.runs { run with jobs := taken.jobs }
      pools := taken.pools
      store := taken.store
      runCounter := daemon.runCounter + 1
      jobCounter := daemon.jobCounter + spec.jobs.length }

/-- `take_back_runs`. -/
def takeBackRuns (cfg : Config) (found : JobKey → Option JobHandle) (now : DateTime)
    (daemon : DaemonState) : Exec DaemonState :=
  daemon.store.unfinishedRuns.foldlM (takeBackRun cfg found now) daemon

/-- `DaemonState::new`. -/
def DaemonState.new (pools : List ResourcePool) (store : RunStore) : DaemonState where
  runs := []
  pools := pools
  requalify := []
  store := store
  events := []
  runCounter := 0
  jobCounter := 0

/-- The scheduler's task as it starts: nothing is being qualified, and the first check has begun. -/
def SchedulerState.starting (daemon : DaemonState) : SchedulerState where
  daemon := daemon
  checks := ⟨[], []⟩
  phase := .finishing [] []

end Roster
