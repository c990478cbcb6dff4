import Roster.LTS.Locks

/-!
# The locks of the daemon

Seven kinds of locks guard what the daemon's tasks share.  Each task is given here by the `Code` of
the functions it runs, function by function: where a guard is taken, whether it lives to the end of
its block or of one expression, what is awaited under it, and where the way depends on data.

Only `runs` over `pools` over `requalify`, and `cards` over `tested`, are ever nested (`Under`), so
the tasks cannot deadlock, however many there are (`daemon_not_deadlocked`).  Three of the locks
block their thread instead of the task; they are held only over other such locks
(`blocking_holder`). -/

namespace Roster

/-- The locks. -/
inductive Lock
  | runs
  | pools
  /-- Of one node, in its tunnel's record. -/
  | health (node : ℕ)
  /-- The worker's. -/
  | processes
  | requalify
  /-- The quarantined cards. -/
  | cards
  /-- When each card was last tested. -/
  | tested
  deriving DecidableEq

namespace Lock

/-- `l'` is taken under `l` somewhere. -/
def Under : Lock → Lock → Prop
  | .runs, .pools => True
  | .runs, .requalify => True
  | .pools, .requalify => True
  | .cards, .tested => True
  | _, _ => False

/-- A `std::sync::Mutex`: waiting for it blocks the thread. -/
def Blocking : Lock → Prop
  | .requalify => True
  | .cards => True
  | .tested => True
  | _ => False

/-- How many locks are taken under it, at most. -/
def depth : Lock → ℕ
  | .runs => 2
  | .pools => 1
  | .cards => 1
  | _ => 0

theorem Under.depth_lt {l l' : Lock} (h : Under l l') : l'.depth < l.depth := by
  cases l <;> cases l' <;> first | exact h.elim | decide

theorem under_wf : WellFounded fun l' l => Under l l' :=
  Subrelation.wf Under.depth_lt (measure depth).wf

theorem Under.blocking {l l' : Lock} (h : Under l l') (hl : Blocking l) : Blocking l' := by
  cases l <;> cases l' <;> first | exact h.elim | exact hl.elim | trivial

end Lock

/-- What the tasks depend on: how many nodes there are and which of them are reached through ssh,
and how many cards this machine has. -/
structure Site where
  nodes : ℕ
  remote : ℕ → Bool
  gpus : ℕ

namespace Locking

open Code

/-! ### This machine's cards -/

/-- `Quarantines::handle`: the cards stay locked until the change is saved. -/
def quarantinesHandle : Code Lock := .hold .cards (maybe (maybe (lock .tested)))

/-- `Quarantines::get`. -/
def quarantinesGet : Code Lock := lock .cards

/-- `Quarantines::tested_at`. -/
def testedAt : Code Lock := lock .tested

/-- `Quarantines::record_test`: `handle` has given its guards back. -/
def recordTest : Code Lock := .seq quarantinesHandle (lock .tested)

/-- `GpuMonitor::read`: both guards are temporaries, one after the other for each card. -/
def gpuMonitorRead (site : Site) : Code Lock :=
  forEach site.gpus fun _ => .seq quarantinesGet testedAt

/-- `GpuMonitor::open`: a card with pages pending retirement is quarantined. -/
def gpuMonitorOpen (site : Site) : Code Lock :=
  forEach site.gpus fun _ => maybe quarantinesHandle

/-- `listen_for_xids`, on a thread of its own. -/
def listenForXids : Code Lock := .loop (.seq .await (maybe quarantinesHandle))

/-! ### The worker -/

/-- `Worker::launch`: the process starts under the lock, unless it is known. -/
def workerLaunch : Code Lock := .hold .processes (maybe .await)

/-- `Worker::poll`: finding the process and asking for its exit are awaited under the lock. -/
def workerPoll : Code Lock := .hold .processes (.seq (maybe .await) (maybe .await))

/-- `Worker::kill`: the guard is a temporary of the `match`, gone before the cancel. -/
def workerKill : Code Lock := .seq (.hold .processes (maybe .await)) (maybe .await)

/-- `Worker::tail`. -/
def workerTail : Code Lock := .await

/-- `Worker::running`: every process is checked under the lock. -/
def workerRunning : Code Lock := .hold .processes (.loop (maybe .await))

/-! ### Nodes -/

/-- `Node::health`. -/
def nodeHealth (node : ℕ) : Code Lock := lock (.health node)

/-- `Tunnel::set_state`. -/
def setState (node : ℕ) : Code Lock := lock (.health node)

/-- `Tunnel::supervise`: ssh exited, or 2 s went by. -/
def supervise (node : ℕ) : Code Lock :=
  .loop (.seq .await (.choose (.seq (setState node) .await) (.seq .await (setState node))))

/-- `connect`: the first answer is kept before the tunnel's task starts. -/
def connect (site : Site) : Code Lock :=
  forEach site.nodes fun node =>
    if site.remote node = true then .seq .await (lock (.health node)) else .done

/-! ### The scheduler -/

/-- `flush_transitions`: a new guard for each job, held while the store writes. -/
def flushTransitions : Code Lock := .loop (.hold .runs (maybe .await))

/-- `advance_pending`. -/
def advancePending : Code Lock := .seq (lock .runs) flushTransitions

/-- `cascade_skipped`. -/
def cascadeSkipped : Code Lock := .seq (lock .runs) flushTransitions

/-- `advance_queued`: reserve under both locks, launch without any, apply under both. -/
def advanceQueued : Code Lock :=
  all [.hold .runs (lock .pools), .loop .await, .hold .runs (lock .pools), flushTransitions]

/-- `advance_running`: applying a result may note cards to test again. -/
def advanceRunning : Code Lock :=
  all [lock .runs, .loop (.seq .await (maybe .await)),
    .hold .runs (.hold .pools (.loop (maybe (lock .requalify)))), flushTransitions]

/-- `tick`. -/
def tick : Code Lock := all [advancePending, cascadeSkipped, advanceQueued, advanceRunning]

/-- `start_qualification`. -/
def startQualification : Code Lock := .await

/-- `finish_qualifications`: the pools are locked once all have been polled. -/
def finishQualifications : Code Lock :=
  .seq (.loop (.seq .await (maybe (.seq .await .await)))) (maybe (lock .pools))

/-- `check_gpus`: readings first, then both locks, then launches without any; a failed one locks the
pools for one expression. -/
def checkGpus (site : Site) : Code Lock :=
  all [finishQualifications,
    forEach site.nodes fun node =>
      if site.remote node = true then nodeHealth node else gpuMonitorRead site,
    .hold .pools (lock .requalify),
    .loop (.seq startQualification (maybe (lock .pools)))]

/-- `scheduler::run`. -/
def schedulerRun (site : Site) : Code Lock :=
  .loop (all [.await, maybe (checkGpus site), tick])

/-! ### Connections -/

/-- What a client asks for. -/
inductive Request
  | ping
  | submit
  | ps
  | status
  | logs
  | info
  | nodes
  | clearGpu
  | gpuQualified
  | launch
  | poll
  | kill
  | logTail
  | cancel

/-- `handle_submit`: the pools are given back before the run is stored and added. -/
def handleSubmit : Code Lock :=
  maybe (.seq (lock .pools) (maybe (all [.await, .loop .await, lock .runs])))

/-- `handle_info`: the runs are a temporary, gone before the worker's processes are counted. -/
def handleInfo (site : Site) : Code Lock :=
  all [lock .runs, workerRunning, gpuMonitorRead site]

/-- `handle_nodes`: each node's health in turn, then runs and pools to the end. -/
def handleNodes (site : Site) : Code Lock :=
  .seq (forEach site.nodes fun node => .seq (nodeHealth node)
      (if site.remote node = true then .done else gpuMonitorRead site))
    (.hold .runs (lock .pools))

/-- `handle_clear_gpu`: passed on to the node, or a card of this machine if there is one. -/
def handleClearGpu : Code Lock := maybe (.choose .await quarantinesHandle)

/-- `dispatch`. -/
def dispatch (site : Site) : Request → Code Lock
  | .ping => .done
  | .submit => handleSubmit
  | .ps => .await
  | .status => .seq .await (maybe .await)
  | .logs => .seq .await (maybe .await)
  | .info => handleInfo site
  | .nodes => handleNodes site
  | .clearGpu => handleClearGpu
  | .gpuQualified => maybe recordTest
  | .launch => workerLaunch
  | .poll => workerPoll
  | .kill => workerKill
  | .logTail => workerTail
  -- the executions are cancelled outside the lock
  | .cancel => .seq (lock .runs) (.loop .await)

/-- `handle_connection`: read, dispatch, write. -/
def handleConnection (site : Site) (request : Request) : Code Lock :=
  all [.await, maybe (dispatch site request), .await]

/-! ### The start -/

/-- `take_back_runs`: a run without its spec is only marked; else the pools stay locked while its
jobs are found again, and are dropped before the runs are locked.  A failing store ends it. -/
def takeBackRuns : Code Lock :=
  .seq .await (.loop (.choose (.loop .await)
    (.seq (.hold .pools (.loop (maybe (.seq (maybe .await) (maybe .await)))))
      (maybe (lock .runs)))))

/-- `connect` and `daemon::run`; the listener, which its last part shares a task with, takes no
lock. -/
def daemonRun (site : Site) : Code Lock :=
  all [connect site, .await, gpuMonitorOpen site, takeBackRuns, schedulerRun site]

/-- The tasks of a daemon. -/
inductive Task
  | daemon
  | xids
  | tunnel (node : ℕ)
  | connection (request : Request)

/-- What a task runs. -/
def code (site : Site) : Task → Code Lock
  | .daemon => daemonRun site
  | .xids => listenForXids
  | .tunnel node => supervise node
  | .connection request => handleConnection site request

/-! ### The order of the locks -/

open Lock

@[simp] theorem nests_quarantinesHandle : quarantinesHandle.Nests Under Blocking [] := by
  simp [quarantinesHandle, Under]

@[simp] theorem nests_gpuMonitorRead (site : Site) :
    (gpuMonitorRead site).Nests Under Blocking [] := by
  simp [gpuMonitorRead, quarantinesGet, testedAt]

@[simp] theorem nests_workerRunning : workerRunning.Nests Under Blocking [] := by
  simp [workerRunning, Blocking]

@[simp] theorem nests_flushTransitions : flushTransitions.Nests Under Blocking [] := by
  simp [flushTransitions, Blocking]

theorem nests_tick : tick.Nests Under Blocking [] := by
  simp [tick, advancePending, cascadeSkipped, advanceQueued, advanceRunning, Under]

theorem nests_checkGpus (site : Site) : (checkGpus site).Nests Under Blocking [] := by
  simp [checkGpus, finishQualifications, startQualification, nodeHealth, Under]

theorem nests_takeBackRuns : takeBackRuns.Nests Under Blocking [] := by
  simp [takeBackRuns, Blocking]

theorem nests_daemonRun (site : Site) : (daemonRun site).Nests Under Blocking [] := by
  simp [daemonRun, connect, gpuMonitorOpen, schedulerRun, nests_takeBackRuns, nests_tick,
    nests_checkGpus]

theorem nests_dispatch (site : Site) (request : Request) :
    (dispatch site request).Nests Under Blocking [] := by
  cases request <;>
    simp [dispatch, handleSubmit, handleInfo, handleNodes, handleClearGpu, recordTest,
      workerLaunch, workerPoll, workerKill, workerTail, nodeHealth, Under, Blocking]

/-- Every task keeps to the order. -/
theorem nests_code (site : Site) (task : Task) :
    (code site task).Nests Under Blocking [] := by
  cases task with
  | daemon => exact nests_daemonRun site
  | xids => simp [code, listenForXids]
  | tunnel node => simp [code, supervise, setState]
  | connection request => simp [code, handleConnection, nests_dispatch]

end Locking

open Locking

variable {site : Site} {tasks : List (Code Lock)}

/-- **No lock deadlock.**  Whatever tasks of the daemon run, and in whatever order they take their
steps, no set of them is ever such that each waits for a lock one of them holds. -/
theorem daemon_not_deadlocked (h : (Locks.system (code site)).Reach [] tasks)
    (among : Set ℕ) : ¬ Locks.Deadlocked tasks among :=
  Locks.not_deadlocked Lock.under_wf (nests_code site) h among

/-- A daemon with one node, behind ssh. -/
def oneTunnel : Site := ⟨1, fun _ => true, 0⟩

/-- Three clients: `roster nodes` has the runs and waits for the pools, `roster submit` has the
pools, and `roster info` waits for the runs. -/
theorem oneTunnel_not_deadlocked :
    ∃ tasks, (Locks.system (code oneTunnel)).Reach [] tasks ∧
      tasks.map Code.locks = [[.runs], [.pools], []] ∧
      tasks.map Code.waits = [some .pools, none, some .runs] ∧
      ∀ among, ¬ Locks.Deadlocked tasks among := by
  let events : List (Locks.Event Task) :=
    [.spawn (.connection .nodes), .spawn (.connection .submit), .spawn (.connection .info)] ++
      List.replicate 9 (.step 0 true) ++ List.replicate 5 (.step 1 true) ++
      List.replicate 3 (.step 2 true)
  obtain ⟨tasks, htasks, hlocks, hwaits⟩ :
      ∃ tasks, LTS.performs (Locks.perform (code oneTunnel)) [] events = some tasks ∧
        tasks.map Code.locks = [[.runs], [.pools], []] ∧
        tasks.map Code.waits = [some .pools, none, some .runs] := ⟨_, rfl, rfl, rfl⟩
  have hreach : (Locks.system (code oneTunnel)).Reach [] tasks :=
    (LTS.Reach.of_performs (G := fun _ _ => True) htasks fun _ _ _ => trivial).of_guard
  exact ⟨tasks, hreach, hlocks, hwaits, daemon_not_deadlocked hreach⟩

/-- As long as a task has not ended, some task can take a step. -/
theorem daemon_moves (h : (Locks.system (code site)).Reach [] tasks)
    (hsome : ∃ c ∈ tasks, c.ended = false) (way : Bool) :
    ∃ i tasks', Locks.perform (code site) tasks (.step i way) = some tasks' :=
  Locks.someone_moves Lock.under_wf (nests_code site) h hsome way

/-- Who holds a lock that blocks threads awaits nothing and waits for no other kind of lock. -/
theorem blocking_holder (h : (Locks.system (code site)).Reach [] tasks) {c : Code Lock}
    (hc : c ∈ tasks) {l : Lock} (hheld : l ∈ c.locks) (hl : l.Blocking) :
    c.awaits = false ∧ ∀ l' ∈ c.waits, l'.Blocking := by
  have hbrief : ∀ l l', Lock.Under l l' → l.Blocking → l'.Blocking := fun _ _ =>
    Lock.Under.blocking
  exact Locks.brief_holder hbrief (nests_code site) h hc hheld hl

end Roster
