import Mathlib.Data.UInt

/-!
# Executors

What the scheduler sees of an executor: the handle a launch returns, what a poll answers, and the
errors.  `unreachable`, `remote` and `rejected` are the three errors whose meaning the scheduler
depends on; the others carry the operating system's own text.
-/

namespace Roster

/-- How the executor that made a handle finds the job again. -/
inductive Backend
  /-- A local job: its systemd scope and the file its exit code is written to. -/
  | process (scope exitFile : Option String)
  | container (name : String)
  /-- A job on another node, by the node's own name for it. -/
  | remote (runId jobId : String)
  deriving DecidableEq, Repr

/-- Opaque handle to a launched job. -/
structure JobHandle where
  hostPid : UInt32
  backend : Backend
  deriving DecidableEq, Repr

/-- The handle of an execution on another node; `hostPid` is 0 when the launch reply was lost. -/
def JobHandle.remote (hostPid : UInt32) (runId jobId : String) : JobHandle :=
  ⟨hostPid, .remote runId jobId⟩

/-- Result of a poll. -/
inductive PollResult
  | running
  | exited (exitCode : Int32)
  deriving DecidableEq

/-- Errors of executor operations. -/
inductive ExecutorError
  | spawnFailed (error : String)
  | waitFailed (error : String)
  | killFailed (error : String)
  | logSetupFailed (error : String)
  | logReadFailed (error : String)
  /-- The node did not answer; nothing is known about the job. -/
  | unreachable (reason : String)
  /-- The node answered with an error. -/
  | remote (message : String)
  /-- The node turned the job down before starting it. -/
  | rejected (reason : String)
  deriving DecidableEq, Repr

/-- The texts `ExecutorError` displays as. -/
def ExecutorError.toString : ExecutorError → String
  | .spawnFailed error => "spawn failed: " ++ error
  | .waitFailed error => "wait failed: " ++ error
  | .killFailed error => "kill failed: " ++ error
  | .logSetupFailed error => "log setup failed: " ++ error
  | .logReadFailed error => "log read failed: " ++ error
  | .unreachable reason => "node unreachable: " ++ reason
  | .remote message => "node error: " ++ message
  | .rejected reason => "rejected: " ++ reason

end Roster
