import Roster.LTS.Basic
import Roster.Data.Exec
import Roster.Data.Keyed
import Roster.Data.Ledger
import Roster.Data.Path
import Roster.Data.Tree
import Roster.Resource.Pool
import Roster.Resource.Accounts
import Roster.Resource.TakeBack
import Roster.Resource.FirstFit
import Roster.Workflow.Validate
import Roster.Workflow.Parse
import Roster.Scheduler.GpuCheck
import Roster.Scheduler.Tick
import Roster.Resource.Admission
import Roster.Resource.RecordTest
import Roster.Resource.HashKernel
import Roster.Resource.VramTest
import Roster.Scheduler.Progress
import Roster.Scheduler.Step
import Roster.Scheduler.Jobs
import Roster.Scheduler.Accounting
import Roster.Scheduler.Qualified
import Roster.Scheduler.Finish
import Roster.Scheduler.Retest
import Roster.Scheduler.Explained
import Roster.Scheduler.Rejections
import Roster.Scheduler.CancelRun
import Roster.Scheduler.Slots
import Roster.Scheduler.Status
import Roster.Broadcast.Order
import Roster.Daemon.Durable
import Roster.Daemon.Stream
import Roster.Daemon.WindDown
import Roster.Daemon.Capacity
import Roster.Daemon.Resume
import Roster.Daemon.RunQueries
import Roster.Daemon.Logs
import Roster.Daemon.Columns
import Roster.Daemon.Locks
import Roster.Daemon.PidLock
import Roster.Executor.Files
import Roster.Executor.Scope
import Roster.Executor.Idempotent
import Roster.Executor.Program
import Roster.Executor.Signals
import Roster.Cluster.Launches
import Roster.Cluster.Evidence
import Roster.Cluster.Tunnel
import Roster.Ipc.Views
import Roster.Workflow.Cycle
import Roster.Data.Ascii
import Roster.Data.Collect
import Roster.Data.Json
import Roster.Resource.Qualify
