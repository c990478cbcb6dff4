import Roster.Executor.Worker
import Roster.Resource.Pool

/-!
# Launches and polls on another node

For each operation on another node `RemoteExecutor` connects to the node's tunnel, writes one
request and reads one reply.  What the controller makes of it depends on how far it came: without a
connection nothing was sent, which a launch reports as `unreachable`; once the request is out, a
launch whose reply is lost returns a handle, and the next poll finds out.
-/

namespace Roster

/-- The requests about a job that the scheduler sends to a node's daemon. -/
inductive Request
  | launch (runId : String) (job : JobSpec) (allocation : Allocation)
  | poll (runId jobId : String)
  deriving DecidableEq

/-- The call of the worker that serves the request. -/
def Request.op : Request → Op
  | .launch _ _ _ => .launch
  | .poll _ _ => .poll

/-- The node's name for the execution. -/
def Request.key : Request → Key
  | .launch runId job _ => (runId, job.id)
  | .poll runId jobId => (runId, jobId)

/-- Replies of a node's daemon to the worker operations. -/
inductive Response
  | error (message : String)
  | launched (hostPid : UInt32)
  | rejected (reason : String)
  | polled (exitCode : Option Int32)
  | killed
  | log (text : String)
  deriving DecidableEq, Repr

/-- How Rust shows a character of a text under `{:?}`.  Of the characters beyond Latin-1, of which it
escapes those that its tables call unprintable, none is escaped here. -/
def debugChar (c : Char) : String :=
  if c = '\x22' then "\\\""
  else if c = '\x5c' then "\\\\"
  else if c = '\t' then "\\t"
  else if c = '\n' then "\\n"
  else if c = '\r' then "\\r"
  else if c.toNat = 0 then "\\0"
  else if c.toNat < 0x20 ∨ (0x7F ≤ c.toNat ∧ c.toNat ≤ 0xA0) ∨ c.toNat = 0xAD then
    "\\u\x7b" ++ String.ofList (Nat.toDigits 16 c.toNat) ++ "\x7d"
  else String.singleton c

/-- A text under `{:?}`. -/
def debugText (text : String) : String :=
  "\"" ++ String.join (text.toList.map debugChar) ++ "\""

example : debugText "a'\t\x1b" = "\"a'\\t\\u\x7b1b\x7d\"" := by decide

/-- How a response is shown in an error. -/
def Response.debug : Response → String
  | .error message => "Error \x7b message: " ++ debugText message ++ " \x7d"
  | .launched hostPid => "Launched \x7b host_pid: " ++ toString hostPid ++ " \x7d"
  | .rejected reason => "Rejected \x7b reason: " ++ debugText reason ++ " \x7d"
  | .polled none => "Polled \x7b exit_code: None \x7d"
  | .polled (some exitCode) => "Polled \x7b exit_code: Some(" ++ toString exitCode ++ ") \x7d"
  | .killed => "Killed"
  | .log text => "Log \x7b text: " ++ debugText text ++ " \x7d"

namespace RemoteExecutor

/-- `RemoteExecutor::connect`; `online` is the flag as it is read, which the tunnel's task and every
lost request write. -/
def connect (online : Bool) (connected : Except String Unit) : Except ExecutorError Unit :=
  if online then connected.mapError .unreachable else .error (.unreachable "node offline")

/-- `RemoteExecutor::exchange`: an error reply, a reply, or none because the connection broke or the
time ran out. -/
def exchange : Except String Response → Except ExecutorError Response
  | .ok (.error message) => .error (.remote message)
  | .ok response => .ok response
  | .error reason => .error (.unreachable reason)

/-- An answer that does not belong to the request. -/
def unexpected (response : Response) : ExecutorError :=
  .remote ("unexpected reply: " ++ response.debug)

/-- `RemoteExecutor::launch`, once connected: if no reply came back the job may be running. -/
def launch (runId jobId : String) (reply : Except String Response) :
    Except ExecutorError JobHandle :=
  match exchange reply with
  | .ok (.launched hostPid) => .ok (.remote hostPid runId jobId)
  | .ok (.rejected reason) => .error (.rejected reason)
  | .ok other => .error (unexpected other)
  | .error (.unreachable _) => .ok (.remote 0 runId jobId)
  | .error error => .error error

/-- `RemoteExecutor::poll`, once connected. -/
def poll (reply : Except String Response) : Except ExecutorError PollResult :=
  match exchange reply with
  | .ok (.polled none) => .ok .running
  | .ok (.polled (some exitCode)) => .ok (.exited exitCode)
  | .ok other => .error (unexpected other)
  | .error error => .error error

/-- `RemoteExecutor::cancel`, once connected. -/
def cancel (reply : Except String Response) : Except ExecutorError Unit :=
  match exchange reply with
  | .ok .killed => .ok ()
  | .ok other => .error (unexpected other)
  | .error error => .error error

/-- `key`: the node's name for an execution, taken from a handle this executor made. -/
def key (handle : JobHandle) : Except ExecutorError Key :=
  match handle.backend with
  | .remote runId jobId => .ok (runId, jobId)
  | _ => .error (.remote "not a remote handle")

/-! ### What the errors mean -/

theorem connect_error {online : Bool} {connected : Except String Unit} {error : ExecutorError}
    (h : connect online connected = .error error) : ∃ reason, error = .unreachable reason := by
  unfold connect at h
  split at h
  · cases connected with
    | ok _ => cases h
    | error reason => exact ⟨reason, (Except.error.inj h).symm⟩
  · exact ⟨_, (Except.error.inj h).symm⟩

/-- Once connected, a launch is not reported as unreachable. -/
theorem launch_ne_unreachable (runId jobId : String) (reply : Except String Response)
    (reason : String) : launch runId jobId reply ≠ .error (.unreachable reason) := by
  intro h
  rcases reply with _ | _ | _ | _ | _ | _ | _ <;>
    simp [launch, exchange, unexpected] at h

/-- A launch is rejected when the node says so. -/
theorem launch_eq_rejected {runId jobId : String} {reply : Except String Response}
    {reason : String} (h : launch runId jobId reply = .error (.rejected reason)) :
    reply = .ok (.rejected reason) := by
  rcases reply with _ | _ | _ | _ | _ | _ | _ <;>
    simp_all [launch, exchange, unexpected]

/-- A handle names the execution as the controller does. -/
theorem launch_eq_ok {runId jobId : String} {reply : Except String Response} {handle : JobHandle}
    (h : launch runId jobId reply = .ok handle) : handle.backend = .remote runId jobId := by
  rcases reply with _ | _ | _ | _ | _ | _ | _ <;>
    simp [launch, exchange, unexpected] at h <;> subst h <;> rfl

/-- A poll says that a job ended when the node does. -/
theorem poll_eq_exited {reply : Except String Response} {exitCode : Int32}
    (h : poll reply = .ok (.exited exitCode)) : reply = .ok (.polled (some exitCode)) := by
  unfold poll at h
  split at h
  · cases h
  · next code hexchange =>
    obtain rfl := PollResult.exited.inj (Except.ok.inj h)
    cases reply with
    | error _ => cases hexchange
    | ok response =>
      cases response with
      | polled _ => cases hexchange; rfl
      | _ => cases hexchange
  · cases h
  · cases h

end RemoteExecutor

end Roster
