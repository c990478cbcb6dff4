import Roster.Cluster.Node
import Roster.Scheduler.JobStep

/-!
# A controller and its nodes

The scheduler's task launches and polls one execution after the other, and waits for each reply or
gives up on it.  What goes on meanwhile on the nodes, in the request handlers and in the tunnels is
in the other steps, in any order: `Cluster.perform` is one step, `cluster` the system.

`attempts` keeps every launch the controller made, with the exchange it led to and what it returned.
Others launch jobs on the nodes too: other controllers, and the GPU check, each under ids of its
own (`foreign`).
-/

namespace Roster

/-- A launch of the controller. -/
structure Attempt where
  key : JobKey
  node : ℕ
  /-- The exchange it made there; `none` when it did not get a connection. -/
  exchange : Option ℕ
  /-- What it returned; `none` while it waits for the reply. -/
  result : Option (Except ExecutorError JobHandle)

/-- The launch that made that exchange returned. -/
def Attempt.returns (node exchange : ℕ) (result : Except ExecutorError JobHandle)
    (attempt : Attempt) : Attempt :=
  if attempt.node = node ∧ attempt.exchange = some exchange then
    { attempt with result := some result }
  else attempt

/-- A controller and its nodes. -/
structure Cluster where
  scheduler : SchedulerState
  nodes : ℕ → NodeDaemon
  /-- What the launches of the task in hand returned so far. -/
  results : List (Except ExecutorError JobHandle)
  /-- The node and the exchange whose reply the scheduler's task waits for. -/
  waiting : Option (ℕ × ℕ)
  attempts : List Attempt
  /-- What others launched. -/
  foreign : List Key

/-- The steps of a controller and its nodes. -/
inductive ClusterEvent
  /-- A locked section of the scheduler's task, or a request to the controller. -/
  | scheduler (label : Label)
  | node (node : ℕ) (event : NodeEvent)
  /-- Somebody else sends a Launch. -/
  | launchElsewhere (node : ℕ) (runId : String) (job : JobSpec) (allocation : Allocation)
  /-- The next launch is sent, or does not get a connection. -/
  | launch (online : Bool) (connected : Except String Unit)
  /-- The next launch is on this machine. -/
  | launchHere (launch : ShellLaunch) (scope exitFile : Option String)
  /-- The launches of a task are over. -/
  | launched
  /-- The next poll is sent, or does not get a connection. -/
  | poll (online : Bool) (connected : Except String Unit)
  /-- The next poll is on this machine. -/
  | pollHere (result : Except ExecutorError PollResult) (tail : Option String)
  /-- The reply arrives. -/
  | receive (tail : Option String)
  /-- The connection breaks, or the time runs out. -/
  | giveUp (reason : String)

/-- The scheduler's task takes these steps with what an executor returned. -/
def Label.isReturn : Label → Bool
  | .launched _ | .polled _ _ => true
  | _ => false

/-- Whether the node is another machine. -/
def Config.isRemote (cfg : Config) (node : ℕ) : Option Bool :=
  cfg.nodes[node]?.map fun node => node.ssh.isSome

namespace Cluster

variable (cfg : Config) (names : ℕ → Names)

/-- A step of the scheduler, unless it panics. -/
def schedule (c : Cluster) (label : Label) : Option Cluster :=
  match c.scheduler.perform cfg label with
  | some (.ok scheduler) => some { c with scheduler := scheduler }
  | _ => none

/-- A step of that node. -/
def onNode (c : Cluster) (node : ℕ) (event : NodeEvent) : Option Cluster :=
  ((c.nodes node).perform (names node) event).map fun d =>
    { c with nodes := Function.update c.nodes node d }

/-- The member that is launched next, and its task. -/
def nextMember (c : Cluster) : Option (AdmitTask × ℕ × Allocation) :=
  match c.waiting, c.scheduler.phase with
  | none, .launching (task :: _) _ =>
    task.placement[c.results.length]?.map fun member => (task, member)
  | _, _ => none

/-- The job that is polled next. -/
def nextPoll (c : Cluster) : Option RunningJob :=
  match c.waiting, c.scheduler.phase with
  | none, .polling (job :: _) _ => some job
  | _, _ => none

/-- A launch returned at once. -/
def returned (c : Cluster) (key : JobKey) (node : ℕ) (exchange : Option ℕ)
    (result : Except ExecutorError JobHandle) : Cluster :=
  { c with
    results := c.results ++ [result]
    attempts := c.attempts ++ [⟨key, node, exchange, some result⟩] }

/-- The operation that waits gets its reply, or the reason why there is none. -/
def deliver (c : Cluster) (reply : Except String Response) (tail : Option String) :
    Option Cluster :=
  c.waiting.bind fun (node, exchange) =>
    match c.scheduler.phase with
    | .launching (task :: _) _ =>
      let result := RemoteExecutor.launch task.runId task.jobInstance.jobId reply
      some { c with
        waiting := none
        results := c.results ++ [result]
        attempts := c.attempts.map (Attempt.returns node exchange result) }
    | .polling _ _ =>
      schedule cfg { c with waiting := none } (.polled (RemoteExecutor.poll reply) tail)
    | _ => none

/-- One step. -/
def perform (c : Cluster) : ClusterEvent → Option Cluster
  | .scheduler label => if label.isReturn then none else c.schedule cfg label
  | .node node event => if event.isNew then none else c.onNode names node event
  | .launchElsewhere node runId job allocation =>
    (c.onNode names node (.accept (.launch runId job allocation))).map fun c =>
      { c with foreign := c.foreign ++ [(runId, job.id)] }
  | .launch online connected => c.nextMember.bind fun (task, node, allocation) =>
    if cfg.isRemote node = some true then
      match RemoteExecutor.connect online connected with
      | .error error => some (c.returned task.key node none (.error error))
      | .ok () =>
        let exchange := (c.nodes node).exchanges.length
        (c.onNode names node (.accept (.launch task.runId task.jobInstance.spec allocation))).map
          fun c => { c with
            waiting := some (node, exchange)
            attempts := c.attempts ++ [⟨task.key, node, some exchange, none⟩] }
    else none
  | .launchHere launch scope exitFile => c.nextMember.bind fun (task, node, allocation) =>
    if cfg.isRemote node = some false then
      (c.onNode names node
        (.launchHere task.runId task.jobInstance.spec allocation launch)).map fun c' =>
          c'.returned task.key node (some (c.nodes node).exchanges.length)
            (launch.result scope exitFile)
    else none
  | .launched =>
    if c.waiting = none then
      (c.schedule cfg (.launched c.results)).map fun c => { c with results := [] }
    else none
  | .poll online connected => c.nextPoll.bind fun job =>
    if cfg.isRemote job.node = some true then
      match RemoteExecutor.key job.handle, RemoteExecutor.connect online connected with
      | .error error, _ | .ok _, .error error => c.schedule cfg (.polled (.error error) none)
      | .ok (runId, jobId), .ok () =>
        let exchange := (c.nodes job.node).exchanges.length
        (c.onNode names job.node (.accept (.poll runId jobId))).map fun c =>
          { c with waiting := some (job.node, exchange) }
    else none
  | .pollHere result tail => c.nextPoll.bind fun job =>
    if cfg.isRemote job.node = some false then c.schedule cfg (.polled result tail) else none
  | .receive tail => c.waiting.bind fun (node, exchange) =>
    (c.nodes node).exchanges[exchange]?.bind fun e =>
      match e.stage with
      | .replied response => c.deliver cfg (.ok response) tail
      | _ => none
  | .giveUp reason => c.deliver cfg (.error reason) none

end Cluster

/-- A controller and its nodes, in any order of their steps. -/
def cluster (cfg : Config) (names : ℕ → Names) : LTS Cluster ClusterEvent :=
  .ofPerform (Cluster.perform cfg names)

namespace Cluster

/-- A controller's life begins: no launch of it is under way anywhere. -/
structure Begins (c : Cluster) : Prop where
  jobs : JobsInv c.scheduler
  phase : c.scheduler.phase = .idle
  nodes : ∀ node, (c.nodes node).exchanges = [] ∧ (c.nodes node).serving = none ∧
    ∀ key, (c.nodes node).worker.call.subject ≠ some (.launch, key)
  results : c.results = []
  waiting : c.waiting = none
  attempts : c.attempts = []
  foreign : c.foreign = []

end Cluster

end Roster
