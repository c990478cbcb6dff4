import Roster.Executor.Idempotent
import Roster.Executor.Remote

/-!
# A node of the controller

The daemon of a node answers each connection in a task of its own: the task reads one request, waits
for the lock of the worker, makes the call and writes one reply.  Requests can be read long after
the controller has given up on them, and in any order.  `NodeDaemon.perform` is one step of the
node, with the worker's own steps from `Worker.perform`.

On the controller's own machine there are no requests: `ShellExecutor` starts the job itself
(`ShellLaunch`), which is recorded as an exchange that is answered at once.

Whatever was started on a node was started for one exchange, and an exchange that was answered
otherwise than with a process has started nothing (`NodeDaemon.Inv`).
-/

namespace Roster

/-! ### The daemon -/

/-- How far an exchange is. -/
inductive Exchange.Stage
  /-- The request is on its way. -/
  | sent
  /-- Its task has got the lock of the worker. -/
  | dispatched
  | replied (response : Response)
  /-- The request will never be read. -/
  | dropped
  deriving DecidableEq

/-- A request to the node's daemon. -/
structure Exchange where
  request : Request
  stage : Exchange.Stage
  /-- What was started for it, by its place among the starts of the machine. -/
  started : Option ℕ
  deriving DecidableEq

/-- A node's daemon. -/
structure NodeDaemon where
  worker : Worker
  exchanges : List Exchange
  /-- The exchange whose task has the lock of the worker. -/
  serving : Option ℕ

/-- How a launch by this machine's own `ShellExecutor` goes. -/
inductive ShellLaunch
  /-- A job started earlier is taken over. -/
  | found (hostPid : UInt32)
  /-- `check_program` turns it down. -/
  | rejected (reason : String)
  | logSetupFailed (error : String)
  | spawnFailed (error : String)
  | spawned (hostPid : UInt32)
  deriving DecidableEq

/-- The steps of a node. -/
inductive NodeEvent
  /-- A connection with that request is made. -/
  | accept (request : Request)
  /-- The request is lost. -/
  | drop (exchange : ℕ)
  /-- `read_request` fails. -/
  | unread (exchange : ℕ) (message : String)
  /-- The task of an exchange gets the lock of the worker. -/
  | dispatch (exchange : ℕ)
  /-- The call under way goes on. -/
  | look
  /-- `waitpid` answers the call under way about a job without a scope. -/
  | waited (waited : Except WaitError WaitStatus)
  | spawn (hostPid : UInt32)
  | launchFails (error : ExecutorError)
  /-- A job goes on, `running` comes to a job, or somebody else polls or kills one. -/
  | other (event : WorkerEvent)
  /-- The daemon starts again, with or without `scopes`. -/
  | restart (scopes : Bool)
  /-- The controller launches a job on its own machine. -/
  | launchHere (runId : String) (job : JobSpec) (allocation : Allocation) (launch : ShellLaunch)

/-- What a call is about. -/
def Call.subject : Call → Option (Op × Key)
  | .idle => none
  | .ask op key | .list op key _ | .file op key _ => some (op, key)
  | .spawn key => some (.launch, key)
  | .wait key answers | .read key answers | .check key answers | .askScope key answers
  | .listScope key answers _ => if answers then some (.poll, key) else none

/-- What the worker answers a request once the call is over. -/
def Worker.response (w : Worker) : Request → Response
  | .launch runId job _ =>
    .launched (.ofNat ((w.processes (runId, job.id)).elim 0 JobProcess.hostPid))
  | .poll _ _ =>
    match w.answers.getLast? with
    | some (_, .polled exitCode) => .polled exitCode
    | some (_, .pollFailed error) => .error ("poll failed: " ++ error.toString)
    | _ => .error "unknown execution"

/-- What the worker answers a Launch that fails. -/
def Worker.refusal : ExecutorError → Response
  | .rejected reason => .rejected reason
  | error => .error ("launch failed: " ++ error.toString)

namespace ShellLaunch

/-- What `ShellExecutor::launch` returns. -/
def result (scope exitFile : Option String) : ShellLaunch → Except ExecutorError JobHandle
  | .found hostPid | .spawned hostPid => .ok ⟨hostPid, .process scope exitFile⟩
  | .rejected reason => .error (.rejected reason)
  | .logSetupFailed error => .error (.logSetupFailed error)
  | .spawnFailed error => .error (.spawnFailed error)

/-- The same as a reply of a worker. -/
def response : ShellLaunch → Response
  | .found hostPid | .spawned hostPid => .launched hostPid
  | .rejected reason => .rejected reason
  | .logSetupFailed error => Worker.refusal (.logSetupFailed error)
  | .spawnFailed error => Worker.refusal (.spawnFailed error)

end ShellLaunch

/-- The steps of a worker that no exchange takes part in. -/
def WorkerEvent.isOther : WorkerEvent → Bool
  | .change _ _ | .running _ | .call .poll _ | .call .kill _ => true
  | _ => false

/-- The steps that make a new exchange. -/
def NodeEvent.isNew : NodeEvent → Bool
  | .accept _ | .launchHere _ _ _ _ => true
  | _ => false

namespace NodeDaemon

variable (names : Names)

/-- The exchange comes to that stage. -/
def goes (d : NodeDaemon) (exchange : ℕ) (stage : Exchange.Stage) : NodeDaemon :=
  { d with exchanges := d.exchanges.modify exchange fun e => { e with stage := stage } }

/-- If the call is over, the task that made it replies. -/
def settle (d : NodeDaemon) : NodeDaemon :=
  match d.serving.bind fun i => d.exchanges[i]?.map fun e => (i, e.request) with
  | some (i, request) =>
    if d.worker.call = .idle then
      { d.goes i (.replied (d.worker.response request)) with serving := none }
    else d
  | none => d

/-- The request of that exchange has not been read. -/
def isSent (d : NodeDaemon) (exchange : ℕ) : Bool :=
  d.exchanges[exchange]?.any fun e => decide (e.stage = .sent)

/-- One step. -/
def perform (d : NodeDaemon) : NodeEvent → Option NodeDaemon
  | .accept request => some { d with exchanges := d.exchanges ++ [⟨request, .sent, none⟩] }
  | .drop i => if d.isSent i then some (d.goes i .dropped) else none
  | .unread i message => if d.isSent i then some (d.goes i (.replied (.error message))) else none
  | .dispatch i =>
    if d.isSent i then
      (d.exchanges[i]?.bind fun e => d.worker.perform names (.call e.request.op e.request.key)).map
        fun w => settle { d.goes i .dispatched with worker := w, serving := some i }
    else none
  | .look => (d.worker.perform names .look).map fun w => settle { d with worker := w }
  | .waited waited =>
    (d.worker.perform names (.waited waited)).map fun w => settle { d with worker := w }
  | .spawn hostPid => d.serving.bind fun i =>
    (d.worker.perform names (.spawn hostPid.toNat)).map fun w =>
      { worker := w, serving := none
        exchanges := d.exchanges.modify i fun e =>
          { e with stage := .replied (.launched hostPid)
                   started := some d.worker.world.starts.length } }
  | .launchFails error => d.serving.bind fun i =>
    (d.worker.perform names .launchFails).map fun w =>
      { d.goes i (.replied (Worker.refusal error)) with worker := w, serving := none }
  | .other event =>
    if event.isOther then (d.worker.perform names event).map fun w => { d with worker := w }
    else none
  | .restart scopes => (d.worker.perform names (.restart scopes)).map fun w =>
    { d with worker := w, serving := none }
  | .launchHere runId job allocation launch =>
    let exchange := ⟨.launch runId job allocation, .replied launch.response, none⟩
    match launch with
    | .spawned hostPid => some { d with
        worker := { d.worker with
          world := d.worker.world.spawn (runId, job.id) hostPid.toNat d.worker.scopes }
        exchanges :=
          d.exchanges ++ [{ exchange with started := some d.worker.world.starts.length }] }
    | _ => some { d with exchanges := d.exchanges ++ [exchange] }

end NodeDaemon

/-! ### What a step of the worker does -/

namespace Worker

variable {names : Names} {w w' : Worker}

@[simp] theorem known_world (w : Worker) (op : Op) (key : Key) (process : JobProcess) :
    (w.known op key process).world = w.world := by
  cases op <;> simp only [known] <;> first | rfl | split <;> rfl

@[simp] theorem unknown_world (w : Worker) (op : Op) (key : Key) :
    (w.unknown op key).world = w.world := by
  cases op <;> rfl

@[simp] theorem finish_world (w : Worker) (key : Key) (process : JobProcess) (answers : Bool)
    (result : PollResult) : (w.finish key process answers result).world = w.world := by
  cases result <;> cases answers <;> rfl

@[simp] theorem finish_call (w : Worker) (key : Key) (process : JobProcess) (answers : Bool)
    (result : PollResult) : (w.finish key process answers result).call = .idle := by
  cases result <;> cases answers <;> rfl

/-- A call that finds its job is over, or goes on about it. -/
theorem known_subject (w : Worker) (op : Op) (key : Key) (process : JobProcess) :
    (w.known op key process).call = .idle ∨
      (w.known op key process).call.subject = some (op, key) := by
  cases op with
  | launch => exact .inl rfl
  | kill => exact .inl rfl
  | poll =>
    unfold known
    cases process.exitCode with
    | none => exact .inr rfl
    | some _ => exact .inl rfl

theorem unknown_subject (w : Worker) (op : Op) (key : Key) :
    (w.unknown op key).call = .idle ∨ (w.unknown op key).call.subject = some (op, key) := by
  cases op with
  | launch => exact .inr rfl
  | poll => exact .inl rfl
  | kill => exact .inl rfl

/-- A look starts nothing, and the call is over or goes on about the same job. -/
theorem look_cases (h : w.look names = some w') :
    w'.world = w.world ∧ (w'.call = .idle ∨ w'.call.subject = w.call.subject) := by
  unfold look at h
  split at h
  case h_1 => cases h
  case h_2 => cases h
  case h_6 heq =>
    obtain ⟨process, -, h⟩ := Option.bind_eq_some_iff.1 h
    obtain ⟨-, h⟩ := Option.ite_none_right_eq_some.1 h
    obtain rfl := Option.some.inj h
    rw [heq]
    split
    · exact ⟨finish_world .., .inl (finish_call ..)⟩
    · exact ⟨rfl, .inr rfl⟩
  case h_3 heq => cases h; exact ⟨rfl, .inr (by rw [heq]; rfl)⟩
  case h_4 heq => cases h; exact ⟨rfl, .inr (by rw [heq]; rfl)⟩
  case h_5 op key pids heq =>
    rw [heq]
    split at h
    · cases h
      exact ⟨known_world .., known_subject ..⟩
    · cases h
      exact ⟨unknown_world .., unknown_subject ..⟩
  case h_9 heq => cases h; exact ⟨rfl, .inr (by rw [heq]; rfl)⟩
  all_goals
    rename_i heq
    obtain ⟨process, -, h⟩ := Option.map_eq_some_iff.1 h
    rw [heq]
    split at h <;> subst h <;>
      first | exact ⟨rfl, .inr rfl⟩ | exact ⟨finish_world .., .inl (finish_call ..)⟩

/-- What `waitpid` says of a plain child ends the call. -/
theorem waited_cases {waited : Except WaitError WaitStatus}
    (h : w.perform names (.waited waited) = some w') : w'.world = w.world ∧ w'.call = .idle := by
  rw [perform] at h
  split at h
  · next key answers heq =>
    obtain ⟨process, -, h⟩ := Option.bind_eq_some_iff.1 h
    obtain ⟨-, h⟩ := Option.ite_none_left_eq_some.1 h
    obtain rfl := Option.some.inj h
    unfold childPolled
    split
    · exact ⟨finish_world .., finish_call ..⟩
    · cases answers <;> exact ⟨rfl, rfl⟩
  · cases h

/-- A call that gets the lock is over at once, or under way. -/
theorem call_cases {op : Op} {key : Key} (h : w.perform names (.call op key) = some w') :
    w'.world = w.world ∧ (w'.call = .idle ∨ w'.call.subject = some (op, key)) := by
  obtain ⟨-, h⟩ := Option.ite_none_left_eq_some.1 h
  split at h
  · cases h
    exact ⟨known_world .., known_subject ..⟩
  · obtain rfl := Option.some.inj h
    split
    · exact ⟨rfl, .inr rfl⟩
    · exact ⟨unknown_world .., unknown_subject ..⟩

theorem spawn_cases {pid : ℕ} (h : w.perform names (.spawn pid) = some w') :
    ∃ key, w.call = .spawn key ∧ w'.call = .idle ∧
      w'.world = w.world.spawn key pid w.scopes := by
  rw [perform] at h
  split at h
  · next key heq => cases h; exact ⟨key, heq, rfl, rfl⟩
  · cases h

theorem launchFails_cases (h : w.perform names .launchFails = some w') :
    (∃ key, w.call = .spawn key) ∧ w' = w.done := by
  rw [perform] at h
  split at h
  · next key heq => cases h; exact ⟨⟨key, heq⟩, rfl⟩
  · cases h

/-- Nobody but an exchange launches. -/
theorem other_cases {event : WorkerEvent} (hother : event.isOther = true)
    (h : w.perform names event = some w') :
    w'.world.starts.map Start.key = w.world.starts.map Start.key ∧
      (w'.call = w.call ∨ (w.call = .idle ∧ ∀ key, w'.call.subject ≠ some (.launch, key))) := by
  cases event with
  | change place change =>
    obtain ⟨world, hworld, rfl⟩ := Option.map_eq_some_iff.1 h
    obtain ⟨start, _, _, hget, -, -, hstarts, -⟩ := World.perform_eq_some hworld
    refine ⟨?_, .inl rfl⟩
    show world.starts.map Start.key = _
    rw [hstarts]
    exact map_set_of_eq hget rfl
  | call op key =>
    obtain ⟨hidle, -⟩ := Option.ite_none_left_eq_some.1 h
    obtain ⟨hworld, hcall⟩ := call_cases h
    refine ⟨by rw [hworld], .inr ⟨not_not.1 hidle, fun other heq => ?_⟩⟩
    rcases hcall with hover | hsubject
    · rw [hover] at heq
      cases heq
    · rw [hsubject] at heq
      cases heq
      cases hother
  | running key =>
    obtain ⟨hidle, h⟩ := Option.ite_none_left_eq_some.1 h
    obtain ⟨process, -, h⟩ := Option.bind_eq_some_iff.1 h
    obtain ⟨-, h⟩ := Option.ite_none_right_eq_some.1 h
    cases h
    refine ⟨rfl, .inr ⟨not_not.1 hidle, ?_⟩⟩
    rintro key ⟨⟩
  | look => cases hother
  | spawn pid => cases hother
  | launchFails => cases hother
  | waited waited => cases hother
  | restart scopes => cases hother

end Worker

/-! ### What was started, and for whom -/

namespace NodeDaemon

variable {names : Names} {base : ℕ} {d d' : NodeDaemon}

theorem goes_exchange {i j : ℕ} {stage : Exchange.Stage} {e' : Exchange} :
    (d.goes i stage).exchanges[j]? = some e' ↔
      ∃ e, d.exchanges[j]? = some e ∧ e' = if i = j then { e with stage := stage } else e := by
  simp only [goes, List.getElem?_modify, Option.map_eq_map, Option.map_eq_some_iff]
  exact exists_congr fun e => and_congr_right fun _ => eq_comm

theorem isSent_iff {i : ℕ} :
    d.isSent i = true ↔ ∃ e, d.exchanges[i]? = some e ∧ e.stage = .sent := by
  simp [isSent, Option.any_eq_true]

/-- What holds of a node between two steps; `base` processes were started there before. -/
structure Inv (base : ℕ) (d : NodeDaemon) : Prop where
  /-- The call under way is about the request of the exchange that has the lock. -/
  serves : ∀ i, d.serving = some i → ∃ e, d.exchanges[i]? = some e ∧ e.stage = .dispatched ∧
    e.started = none ∧ d.worker.call.subject = some (e.request.op, e.request.key)
  launches : ∀ key, d.worker.call.subject = some (.launch, key) → d.serving ≠ none
  /-- An exchange for which a process was started is answered with it. -/
  started : ∀ (i : ℕ) (e : Exchange), d.exchanges[i]? = some e → e.started ≠ none →
    ∃ hostPid, e.stage = .replied (.launched hostPid)
  /-- Every process was started for an exchange. -/
  starts : ∀ (p : ℕ) (start : Start), base ≤ p → d.worker.world.starts[p]? = some start →
    ∃ (i : ℕ) (e : Exchange), d.exchanges[i]? = some e ∧ e.request.op = .launch ∧
      e.request.key = start.key ∧ e.started = some p

/-- A process is found at its place by its job. -/
theorem starts_of_map {starts starts' : List Start} {p : ℕ} {start : Start}
    (hkeys : starts'.map Start.key = starts.map Start.key) (h : starts'[p]? = some start) :
    ∃ before, starts[p]? = some before ∧ before.key = start.key := by
  have hmap : (starts'.map Start.key)[p]? = some start.key := by rw [List.getElem?_map, h]; rfl
  rw [hkeys, List.getElem?_map, Option.map_eq_some_iff] at hmap
  exact hmap

/-- An exchange for which nothing was started can come to any stage. -/
theorem Inv.goes (h : d.Inv base) {i : ℕ} (hidle : d.serving ≠ some i)
    (hstarted : ∀ e, d.exchanges[i]? = some e → e.started = none) (stage : Exchange.Stage) :
    (d.goes i stage).Inv base where
  serves j hj := by
    obtain ⟨e, hget, hstage, hnone, hsubject⟩ := h.serves j hj
    have hne : i ≠ j := by
      rintro rfl
      exact hidle hj
    exact ⟨e, goes_exchange.2 ⟨e, hget, by rw [if_neg hne]⟩, hstage, hnone, hsubject⟩
  launches := h.launches
  started j e' hget' hne := by
    obtain ⟨e, hget, rfl⟩ := goes_exchange.1 hget'
    split at hne
    · next heq =>
      subst heq
      exact absurd (hstarted e hget) hne
    · next hij =>
      rw [if_neg hij]
      exact h.started j e hget hne
  starts p start hp hstart := by
    obtain ⟨j, e, hget, hop, hkey, hplace⟩ := h.starts p start hp hstart
    refine ⟨j, _, goes_exchange.2 ⟨e, hget, rfl⟩, ?_⟩
    split <;> exact ⟨hop, hkey, hplace⟩

/-- A worker that goes on and starts nothing. -/
theorem Inv.work (h : d.Inv base) {w : Worker} (serving : Option ℕ)
    (hkeys : w.world.starts.map Start.key = d.worker.world.starts.map Start.key)
    (hserves : ∀ i, serving = some i → ∃ e, d.exchanges[i]? = some e ∧ e.stage = .dispatched ∧
      e.started = none ∧ w.call.subject = some (e.request.op, e.request.key))
    (hlaunches : ∀ key, w.call.subject = some (.launch, key) → serving ≠ none) :
    Inv base { d with worker := w, serving := serving } where
  serves := hserves
  launches := hlaunches
  started := h.started
  starts p start hp hstart := by
    obtain ⟨before, hbefore, hkey⟩ := starts_of_map hkeys hstart
    rw [← hkey]
    exact h.starts p before hp hbefore

/-- The lock is free once the call is over. -/
theorem Inv.rest (h : d.Inv base) {w : Worker} (hidle : w.call = .idle)
    (hkeys : w.world.starts.map Start.key = d.worker.world.starts.map Start.key) :
    Inv base { d with worker := w, serving := none } := by
  refine h.work none hkeys ?_ fun key heq => ?_
  · rintro _ ⟨⟩
  · rw [hidle] at heq
    cases heq

/-- The worker makes a step of the call of exchange `i`, which is answered when it is over. -/
theorem Inv.settle (h : d.Inv base) {w : Worker} {i : ℕ} {e : Exchange}
    (hget : d.exchanges[i]? = some e) (hstage : e.stage = .dispatched) (hnone : e.started = none)
    (hkeys : w.world.starts.map Start.key = d.worker.world.starts.map Start.key)
    (hcall : w.call = .idle ∨ w.call.subject = some (e.request.op, e.request.key)) :
    (NodeDaemon.settle { d with worker := w, serving := some i }).Inv base := by
  have hsettle : NodeDaemon.settle { d with worker := w, serving := some i } =
      if w.call = .idle then
        { d.goes i (.replied (w.response e.request)) with worker := w, serving := none }
      else { d with worker := w, serving := some i } := by
    simp only [NodeDaemon.settle, Option.bind_some, hget, Option.map_some]
    rfl
  rw [hsettle]
  split
  · next hidle =>
    refine (h.rest hidle hkeys).goes (Option.some_ne_none i).symm ?_ _
    intro e' hget'
    obtain rfl := Option.some.inj (hget.symm.trans hget')
    exact hnone
  · next hbusy =>
    refine h.work (some i) hkeys ?_ fun _ _ => Option.some_ne_none i
    rintro _ ⟨⟩
    exact ⟨e, hget, hstage, hnone, hcall.resolve_left hbusy⟩

/-- The call under way goes on, or is over and answered. -/
theorem Inv.goOn (h : d.Inv base) {w : Worker} (hworld : w.world = d.worker.world)
    (hsubject : w.call = .idle ∨ w.call.subject = d.worker.call.subject) :
    (NodeDaemon.settle { d with worker := w }).Inv base := by
  have hkeys := congrArg (fun world => world.starts.map Start.key) hworld
  cases hserving : d.serving with
  | none =>
    refine h.work none hkeys ?_ fun key hlaunch => ?_
    · rintro _ ⟨⟩
    · rcases hsubject with hidle | hsame
      · rw [hidle] at hlaunch
        cases hlaunch
      · exact absurd hserving (h.launches key (hsame ▸ hlaunch))
  | some i =>
    obtain ⟨e, hget, hstage, hnone, hcall⟩ := h.serves i hserving
    exact h.settle hget hstage hnone hkeys (hsubject.imp_right fun hsame => hsame.trans hcall)

/-- The lock is free when no call is under way. -/
theorem Inv.serving_of_idle (h : d.Inv base) (hidle : d.worker.call = .idle) :
    d.serving = none := by
  by_contra hne
  obtain ⟨i, hi⟩ := Option.ne_none_iff_exists'.1 hne
  obtain ⟨_, -, -, -, hsubject⟩ := h.serves i hi
  rw [hidle] at hsubject
  cases hsubject

/-- A new exchange, for which something may have been started. -/
theorem Inv.append (h : d.Inv base) {exchange : Exchange}
    (hstarted : exchange.started ≠ none →
      ∃ hostPid, exchange.stage = .replied (.launched hostPid)) :
    Inv base { d with exchanges := d.exchanges ++ [exchange] } where
  serves i hi := by
    obtain ⟨e, hget, hrest⟩ := h.serves i hi
    exact ⟨e, getElem?_append_singleton.2 (.inl hget), hrest⟩
  launches := h.launches
  started i e hget hne := by
    rcases getElem?_append_singleton.1 hget with hold | ⟨-, rfl⟩
    · exact h.started i e hold hne
    · exact hstarted hne
  starts p start hp hstart := by
    obtain ⟨i, e, hget, hrest⟩ := h.starts p start hp hstart
    exact ⟨i, e, getElem?_append_singleton.2 (.inl hget), hrest⟩

/-- A process is started for the exchange that has the lock. -/
theorem Inv.spawn (h : d.Inv base) {hostPid : UInt32}
    (hst : d.perform names (.spawn hostPid) = some d') : d'.Inv base := by
  obtain ⟨i, hi, hst⟩ := Option.bind_eq_some_iff.1 hst
  obtain ⟨w, hw, rfl⟩ := Option.map_eq_some_iff.1 hst
  obtain ⟨key, hcall, hidle, hworld⟩ := Worker.spawn_cases hw
  obtain ⟨e, hget, -, hnone, hsubject⟩ := h.serves i hi
  rw [hcall] at hsubject
  obtain ⟨hop, hkey⟩ := Prod.mk.inj (Option.some.inj hsubject)
  have hexchange : ∀ {j e'}, (d.exchanges.modify i fun e => { e with
      stage := .replied (.launched hostPid), started := some d.worker.world.starts.length })[j]? =
        some e' ↔ ∃ e, d.exchanges[j]? = some e ∧ e' = if i = j then { e with
          stage := .replied (.launched hostPid), started := some d.worker.world.starts.length }
        else e := by
    intro j e'
    simp only [List.getElem?_modify, Option.map_eq_map, Option.map_eq_some_iff]
    exact exists_congr fun e => and_congr_right fun _ => eq_comm
  refine ⟨fun _ heq => ?_, fun _ heq => ?_, fun j e' hget' hne => ?_,
    fun p start hp hstart => ?_⟩
  · cases heq
  · rw [hidle] at heq
    cases heq
  · obtain ⟨before, hbefore, rfl⟩ := hexchange.1 hget'
    split
    · exact ⟨hostPid, rfl⟩
    · next hij =>
      rw [if_neg hij] at hne
      exact h.started j before hbefore hne
  · rw [hworld] at hstart
    rcases getElem?_append_singleton.1 hstart with hold | ⟨rfl, rfl⟩
    · obtain ⟨j, before, hbefore, hop', hkey', hplace⟩ := h.starts p start hp hold
      have hij : i ≠ j := by
        rintro rfl
        obtain rfl := Option.some.inj (hget.symm.trans hbefore)
        rw [hnone] at hplace
        cases hplace
      exact ⟨j, before, hexchange.2 ⟨before, hbefore, by rw [if_neg hij]⟩, hop', hkey', hplace⟩
    · exact ⟨i, _, hexchange.2 ⟨e, hget, (if_pos rfl).symm⟩, hop.symm, hkey.symm, rfl⟩

/-- Every step of a node keeps what holds of it. -/
theorem Inv.step (h : d.Inv base) {event : NodeEvent} (hst : d.perform names event = some d') :
    d'.Inv base := by
  -- an exchange whose request was not read has started nothing and does not have the lock
  have hsent : ∀ i, d.isSent i = true →
      d.serving ≠ some i ∧ ∀ e, d.exchanges[i]? = some e → e.started = none := by
    intro i hi
    obtain ⟨e, hget, hstage⟩ := isSent_iff.1 hi
    refine ⟨fun hserving => ?_, fun e' hget' => ?_⟩
    · obtain ⟨e', hget', hdispatched, -⟩ := h.serves i hserving
      obtain rfl := Option.some.inj (hget.symm.trans hget')
      rw [hstage] at hdispatched
      cases hdispatched
    · obtain rfl := Option.some.inj (hget.symm.trans hget')
      by_contra hne
      obtain ⟨hostPid, hreplied⟩ := h.started i e hget hne
      rw [hstage] at hreplied
      cases hreplied
  cases event with
  | accept request =>
    cases hst
    exact h.append fun hne => absurd rfl hne
  | drop i =>
    obtain ⟨hi, hst⟩ := Option.ite_none_right_eq_some.1 hst
    cases hst
    exact h.goes (hsent i hi).1 (hsent i hi).2 _
  | unread i message =>
    obtain ⟨hi, hst⟩ := Option.ite_none_right_eq_some.1 hst
    cases hst
    exact h.goes (hsent i hi).1 (hsent i hi).2 _
  | dispatch i =>
    obtain ⟨hi, hst⟩ := Option.ite_none_right_eq_some.1 hst
    obtain ⟨w, hw, rfl⟩ := Option.map_eq_some_iff.1 hst
    obtain ⟨e, hget, hcall⟩ := Option.bind_eq_some_iff.1 hw
    obtain ⟨hworld, hsubject⟩ := Worker.call_cases hcall
    have hgoes := h.goes (hsent i hi).1 (hsent i hi).2 .dispatched
    exact hgoes.settle (goes_exchange.2 ⟨e, hget, (if_pos rfl).symm⟩) rfl
      ((hsent i hi).2 e hget) (congrArg (fun world => world.starts.map Start.key) hworld) hsubject
  | look =>
    obtain ⟨w, hw, rfl⟩ := Option.map_eq_some_iff.1 hst
    obtain ⟨hworld, hsubject⟩ := Worker.look_cases hw
    exact h.goOn hworld hsubject
  | waited waited =>
    obtain ⟨w, hw, rfl⟩ := Option.map_eq_some_iff.1 hst
    obtain ⟨hworld, hidle⟩ := Worker.waited_cases hw
    exact h.goOn hworld (.inl hidle)
  | spawn hostPid => exact h.spawn hst
  | launchFails error =>
    obtain ⟨i, hi, hst⟩ := Option.bind_eq_some_iff.1 hst
    obtain ⟨w, hw, rfl⟩ := Option.map_eq_some_iff.1 hst
    obtain ⟨-, rfl⟩ := Worker.launchFails_cases hw
    obtain ⟨e, hget, -, hnone, -⟩ := h.serves i hi
    have hrest : Inv base { d with worker := d.worker.done, serving := none } := h.rest rfl rfl
    refine hrest.goes (Option.some_ne_none i).symm ?_ _
    intro e' hget'
    obtain rfl := Option.some.inj (hget.symm.trans hget')
    exact hnone
  | other event =>
    obtain ⟨hother, hst⟩ := Option.ite_none_right_eq_some.1 hst
    obtain ⟨w, hw, rfl⟩ := Option.map_eq_some_iff.1 hst
    obtain ⟨hkeys, hsame | ⟨hidle, hnot⟩⟩ := Worker.other_cases hother hw
    · refine h.work d.serving hkeys ?_ ?_
      · intro i hi
        rw [hsame]
        exact h.serves i hi
      · intro key hlaunch
        exact h.launches key (hsame ▸ hlaunch)
    · refine h.work d.serving hkeys ?_ fun key hlaunch => absurd hlaunch (hnot key)
      intro i hi
      rw [h.serving_of_idle hidle] at hi
      cases hi
  | restart scopes =>
    cases hst
    exact h.rest rfl rfl
  | launchHere runId job allocation launch =>
    cases launch with
    | spawned hostPid =>
      cases hst
      refine ⟨?_, h.launches, ?_, ?_⟩
      · intro i hi
        obtain ⟨e, hget, hrest⟩ := h.serves i hi
        exact ⟨e, getElem?_append_singleton.2 (.inl hget), hrest⟩
      · intro i e hget hne
        rcases getElem?_append_singleton.1 hget with hold | ⟨-, rfl⟩
        · exact h.started i e hold hne
        · exact ⟨hostPid, rfl⟩
      · intro p start hp hstart
        rcases getElem?_append_singleton.1 hstart with hold | ⟨rfl, rfl⟩
        · obtain ⟨i, e, hget, hrest⟩ := h.starts p start hp hold
          exact ⟨i, e, getElem?_append_singleton.2 (.inl hget), hrest⟩
        · exact ⟨_, _, getElem?_append_singleton.2 (.inr ⟨rfl, rfl⟩), rfl, rfl, rfl⟩
    | _ =>
      cases hst
      exact h.append fun hne => absurd rfl hne

/-! ### What becomes of the exchanges -/

/-- The same exchanges, and those that were answered are as they were. -/
structure Keeps (exchanges exchanges' : List Exchange) : Prop where
  requests : exchanges'.map Exchange.request = exchanges.map Exchange.request
  replied : ∀ (i : ℕ) (e : Exchange) (response : Response), exchanges[i]? = some e →
    e.stage = .replied response → exchanges'[i]? = some e

theorem Keeps.refl (exchanges : List Exchange) : Keeps exchanges exchanges :=
  ⟨rfl, fun _ _ _ hget _ => hget⟩

/-- One exchange that was not answered goes on. -/
theorem Keeps.modify {exchanges : List Exchange} {i : ℕ} {f : Exchange → Exchange}
    (hrequest : ∀ e, (f e).request = e.request)
    (hnot : ∀ (e : Exchange) (response : Response), exchanges[i]? = some e →
      e.stage ≠ .replied response) : Keeps exchanges (exchanges.modify i f) where
  requests := by
    apply List.ext_getElem?
    intro j
    rw [List.getElem?_map, List.getElem?_map, List.getElem?_modify, Option.map_eq_map,
      Option.map_map]
    congr 1
    funext e
    by_cases hij : i = j <;> simp [hij, hrequest]
  replied j e response hget hreplied := by
    have hij : i ≠ j := by
      rintro rfl
      exact hnot e response hget hreplied
    rw [List.getElem?_modify, hget]
    simp [hij]

theorem Keeps.request {exchanges exchanges' : List Exchange} (h : Keeps exchanges exchanges')
    {i : ℕ} {e : Exchange} (hget : exchanges[i]? = some e) :
    ∃ e', exchanges'[i]? = some e' ∧ e'.request = e.request := by
  have hmap : (exchanges'.map Exchange.request)[i]? = some e.request := by
    rw [h.requests, List.getElem?_map, hget]
    rfl
  rwa [List.getElem?_map, Option.map_eq_some_iff] at hmap

theorem Keeps.request_back {exchanges exchanges' : List Exchange} (h : Keeps exchanges exchanges')
    {i : ℕ} {e' : Exchange} (hget : exchanges'[i]? = some e') :
    ∃ e, exchanges[i]? = some e ∧ e.request = e'.request := by
  have hmap : (exchanges.map Exchange.request)[i]? = some e'.request := by
    rw [← h.requests, List.getElem?_map, hget]
    rfl
  rwa [List.getElem?_map, Option.map_eq_some_iff] at hmap

theorem Keeps.trans {first second third : List Exchange} (h : Keeps first second)
    (h' : Keeps second third) : Keeps first third :=
  ⟨h'.requests.trans h.requests, fun i e response hget hreplied =>
    h'.replied i e response (h.replied i e response hget hreplied) hreplied⟩

/-- Only an exchange under way is answered by the end of a call. -/
theorem settle_keeps {e : Exchange} {i : ℕ} (hserving : d.serving = some i)
    (hget : d.exchanges[i]? = some e) (hstage : e.stage = .dispatched) :
    Keeps d.exchanges d.settle.exchanges := by
  simp only [settle, hserving, Option.bind_some, hget, Option.map_some]
  split
  · refine .modify (fun _ => rfl) ?_
    intro e' response hget' hreplied
    obtain rfl := Option.some.inj (hget.symm.trans hget')
    rw [hstage] at hreplied
    cases hreplied
  · exact .refl _

theorem Inv.goOn_keeps (h : d.Inv base) (w : Worker) :
    Keeps d.exchanges (NodeDaemon.settle { d with worker := w }).exchanges := by
  cases hserving : d.serving with
  | none => exact .refl _
  | some i =>
    obtain ⟨e, hget, hstage, -⟩ := h.serves i hserving
    exact settle_keeps (d := { d with worker := w, serving := some i }) rfl hget hstage

theorem Inv.keeps (h : d.Inv base) {event : NodeEvent} (hold : event.isNew = false)
    (hst : d.perform names event = some d') : Keeps d.exchanges d'.exchanges := by
  -- only an exchange that is not answered yet changes
  have hsent : ∀ i, d.isSent i = true → ∀ (e : Exchange) (response : Response),
      d.exchanges[i]? = some e → e.stage ≠ .replied response := by
    intro i hi e response hget hreplied
    obtain ⟨e', hget', hstage⟩ := isSent_iff.1 hi
    obtain rfl := Option.some.inj (hget.symm.trans hget')
    rw [hstage] at hreplied
    cases hreplied
  have hserving : ∀ i, d.serving = some i → ∀ (e : Exchange) (response : Response),
      d.exchanges[i]? = some e → e.stage ≠ .replied response := by
    intro i hi e response hget hreplied
    obtain ⟨e', hget', hstage, -⟩ := h.serves i hi
    obtain rfl := Option.some.inj (hget.symm.trans hget')
    rw [hstage] at hreplied
    cases hreplied
  cases event with
  | accept request => cases hold
  | launchHere runId job allocation launch => cases hold
  | drop i =>
    obtain ⟨hi, hst⟩ := Option.ite_none_right_eq_some.1 hst
    cases hst
    exact .modify (fun _ => rfl) (hsent i hi)
  | unread i message =>
    obtain ⟨hi, hst⟩ := Option.ite_none_right_eq_some.1 hst
    cases hst
    exact .modify (fun _ => rfl) (hsent i hi)
  | dispatch i =>
    obtain ⟨hi, hst⟩ := Option.ite_none_right_eq_some.1 hst
    obtain ⟨w, hw, rfl⟩ := Option.map_eq_some_iff.1 hst
    obtain ⟨e, hget, -⟩ := Option.bind_eq_some_iff.1 hw
    have hgoes : Keeps d.exchanges (d.goes i .dispatched).exchanges :=
      .modify (fun _ => rfl) (hsent i hi)
    refine hgoes.trans ?_
    exact settle_keeps (d := { d.goes i .dispatched with worker := w, serving := some i }) rfl
      (goes_exchange.2 ⟨e, hget, (if_pos rfl).symm⟩) rfl
  | look =>
    obtain ⟨w, -, rfl⟩ := Option.map_eq_some_iff.1 hst
    exact h.goOn_keeps w
  | waited waited =>
    obtain ⟨w, -, rfl⟩ := Option.map_eq_some_iff.1 hst
    exact h.goOn_keeps w
  | spawn hostPid =>
    obtain ⟨i, hi, hst⟩ := Option.bind_eq_some_iff.1 hst
    obtain ⟨w, -, rfl⟩ := Option.map_eq_some_iff.1 hst
    exact .modify (fun _ => rfl) (hserving i hi)
  | launchFails error =>
    obtain ⟨i, hi, hst⟩ := Option.bind_eq_some_iff.1 hst
    obtain ⟨w, -, rfl⟩ := Option.map_eq_some_iff.1 hst
    exact .modify (fun _ => rfl) (hserving i hi)
  | other event =>
    obtain ⟨-, hst⟩ := Option.ite_none_right_eq_some.1 hst
    obtain ⟨w, -, rfl⟩ := Option.map_eq_some_iff.1 hst
    exact .refl _
  | restart scopes =>
    cases hst
    exact .refl _

end NodeDaemon

end Roster
