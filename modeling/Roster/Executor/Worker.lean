import Mathlib.Logic.Function.Basic
import Roster.Executor.Names
import Roster.Executor.Scope

/-!
# A worker and the jobs on its machine

A worker starts the jobs that controllers place on its machine.  It knows a job by the map
`processes`, which is lost when the daemon restarts; a job that is not in the map is found again
through its scope, which lasts while it has processes, or through its exit file (`find`).  A machine
without systemd has no scopes: there a job is a plain child of its daemon, and nothing finds it.

The calls of a worker hold the lock of the map, so one call is under way at a time, while the jobs
go on between any two of its looks.  `Worker.perform` is one step of the worker or of a job, and
`worker names` is the system of all their interleavings; `names` gives the scope and the exit file
of a job, which `jobNames` computes as the code does.
-/

namespace Roster

/-! ### The machine -/

/-- What a launch has started: a job in a scope, or without systemd a plain child. -/
structure Start where
  key : Key
  scope : Option JobScope
  deriving DecidableEq, Repr

/-- Everything that was started on the machine, in order, and its exit files. -/
structure World where
  starts : List Start
  files : Path.Dir → Option Int32

namespace World

variable (names : Names)

/-- The processes in the scope of that name. -/
def procs (world : World) (unit : String) : List ℕ :=
  world.starts.flatMap fun start =>
    if names.unit start.key = unit then start.scope.elim [] JobScope.procs else []

/-- One step of the job at that place: a scope is set up under a free name, and `mv` replaces
whatever is in the exit file. -/
def perform (world : World) (place : ℕ) (change : JobScope.Change) : Option World :=
  world.starts[place]?.bind fun start => start.scope.bind fun scope =>
    if change = .setUp ∧ world.procs names (names.unit start.key) ≠ [] then none
    else (scope.perform change).map fun scope =>
      { starts := world.starts.set place { start with scope := some scope }
        files :=
          if change = .rename then
            Function.update world.files (names.exitFile start.key) scope.exitFile
          else world.files }

/-- `spawn` for that job, by a daemon that has `scopes`. -/
def spawn (world : World) (key : Key) (pid : ℕ) (scopes : Bool) : World :=
  { world with starts := world.starts ++ [⟨key, if scopes then some (.spawned pid) else none⟩] }

/-- `waitpid` says that the process started there is alive; the daemon's children are the only
processes it says that of. -/
def stillAlive (world : World) (child : Option ℕ) : Bool :=
  match child.bind fun place => world.starts[place]?.bind Start.scope with
  | some scope => scope.stillAlive true
  | none => false

end World

/-! ### The worker -/

/-- The job this node started, and its exit code once known. -/
structure JobProcess where
  hostPid : ℕ
  /-- Where this daemon started it; `none` for a job that was found. -/
  child : Option ℕ
  /-- Its handle has a scope and an exit file. -/
  hasScope : Bool
  exitCode : Option Int32
  deriving DecidableEq, Repr

/-- The calls that look for a job. -/
inductive Op
  | launch
  | poll
  | kill
  deriving DecidableEq, Repr

/-- What a Poll is answered. -/
inductive Answer
  | polled (exitCode : Option Int32)
  | pollFailed (error : ExecutorError)
  | unknownExecution
  deriving DecidableEq, Repr

/-- The call that has the lock, by what it does next. -/
inductive Call
  | idle
  /-- `scope_pids` asks systemd for the scope. -/
  | ask (op : Op) (key : Key)
  /-- It lists the processes of what systemd named. -/
  | list (op : Op) (key : Key) (shown : List ℕ)
  /-- `find` looks for the exit file when there are none. -/
  | file (op : Op) (key : Key) (pids : List ℕ)
  /-- `launch` checks the program, opens the log and spawns. -/
  | spawn (key : Key)
  /-- `poll_scope` or `poll_child`, for a Poll that is to be answered or for `running`: `waitpid`. -/
  | wait (key : Key) (answers : Bool)
  | read (key : Key) (answers : Bool)
  | check (key : Key) (answers : Bool)
  | askScope (key : Key) (answers : Bool)
  | listScope (key : Key) (answers : Bool) (shown : List ℕ)
  deriving DecidableEq, Repr

structure Worker where
  /-- `scopes_available`, which each daemon probes once. -/
  scopes : Bool
  world : World
  processes : Key → Option JobProcess
  call : Call
  /-- What Polls were answered, in order. -/
  answers : List (Key × Answer)

/-- The steps of a worker and of its jobs. -/
inductive WorkerEvent
  | change (place : ℕ) (change : JobScope.Change)
  /-- A Launch, Poll or Kill takes the lock. -/
  | call (op : Op) (key : Key)
  /-- `running` comes to that job. -/
  | running (key : Key)
  /-- The call goes on with its next look. -/
  | look
  /-- `waitpid` answers `poll_child`. -/
  | waited (waited : Except WaitError WaitStatus)
  | spawn (pid : ℕ)
  /-- The program is turned down, or the log or the process can't be made. -/
  | launchFails
  /-- The daemon ends, at any point of a call, and starts again, with or without `scopes`. -/
  | restart (scopes : Bool)
  deriving DecidableEq

/-- `ShellExecutor::find`: the oldest process of the scope, or 0 when only the exit file is left. -/
def findPid (pids : List ℕ) (exitFile : Option Int32) : Option ℕ :=
  if pids = [] ∧ exitFile = none then none else some (pids.min?.getD 0)

namespace Worker

variable (names : Names)

/-- `processes.insert(key, process)`. -/
def insert (w : Worker) (key : Key) (process : JobProcess) : Worker :=
  { w with processes := Function.update w.processes key (some process) }

/-- The call is over. -/
def done (w : Worker) : Worker := { w with call := .idle }

def answer (w : Worker) (key : Key) (answer : Answer) : Worker :=
  { w with answers := w.answers ++ [(key, answer)] }

/-- What a poll of the executor tells `exit_code`, and the answer when there is one to give. -/
def finish (w : Worker) (key : Key) (process : JobProcess) (answers : Bool)
    (result : PollResult) : Worker :=
  let exitCode := match result with
    | .running => none
    | .exited exitCode => some exitCode
  let w := w.insert key { process with exitCode := exitCode }
  (if answers then w.answer key (.polled exitCode) else w).done

/-- What `poll_child` makes of `waitpid`; an error changes nothing in the map. -/
def childPolled (w : Worker) (key : Key) (process : JobProcess) (answers : Bool)
    (waited : Except WaitError WaitStatus) : Worker :=
  match ShellExecutor.pollChild waited with
  | .ok result => w.finish key process answers result
  | .error error => (if answers then w.answer key (.pollFailed error) else w).done

/-- A call that has found its job in the map. -/
def known (w : Worker) (op : Op) (key : Key) (process : JobProcess) : Worker :=
  match op with
  | .launch | .kill => w.done
  | .poll =>
    match process.exitCode with
    | some exitCode => (w.answer key (.polled (some exitCode))).done
    | none => { w with call := .wait key true }

/-- A call that has found nothing. -/
def unknown (w : Worker) (op : Op) (key : Key) : Worker :=
  match op with
  | .launch => { w with call := .spawn key }
  | .poll => (w.answer key .unknownExecution).done
  | .kill => w.done

/-- The next look of the call. -/
def look (w : Worker) : Option Worker :=
  match w.call with
  | .idle | .spawn _ => none
  | .ask op key => some { w with call := .list op key (w.world.procs names (names.unit key)) }
  | .list op key shown =>
    some { w with
      call := .file op key (scopePids shown (w.world.procs names (names.unit key))) }
  | .file op key pids =>
    match findPid pids (w.world.files (names.exitFile key)) with
    | some hostPid =>
      let process := ⟨hostPid, none, true, none⟩
      some ((w.insert key process).known op key process)
    | none => some (w.unknown op key)
  | .wait key answers => (w.processes key).bind fun process =>
    if process.hasScope then
      some (if w.world.stillAlive process.child then w.finish key process answers .running
        else { w with call := .read key answers })
    else none
  | .read key answers => (w.processes key).map fun process =>
    match readExitCode (w.world.files (names.exitFile key)) with
    | some exitCode => w.finish key process answers (.exited exitCode)
    | none => { w with call := .check key answers }
  | .check key answers => (w.processes key).map fun process =>
    if inScope process.hostPid (w.world.procs names (names.unit key)) then
      w.finish key process answers .running
    else { w with call := .askScope key answers }
  | .askScope key answers =>
    some { w with call := .listScope key answers (w.world.procs names (names.unit key)) }
  | .listScope key answers shown => (w.processes key).map fun process =>
    w.finish key process answers
      (if scopePids shown (w.world.procs names (names.unit key)) ≠ [] then .running
      else .exited (-1))

/-- One step. -/
def perform (w : Worker) : WorkerEvent → Option Worker
  | .change place change =>
    (w.world.perform names place change).map fun world => { w with world := world }
  | .call op key =>
    if w.call ≠ .idle then none
    else match w.processes key with
      | some process => some (w.known op key process)
      | none => some (if w.scopes then { w with call := .ask op key } else w.unknown op key)
  | .running key =>
    if w.call ≠ .idle then none
    else (w.processes key).bind fun process =>
      if process.exitCode = none then some { w with call := .wait key false } else none
  | .look => w.look names
  | .waited waited =>
    match w.call with
    | .wait key answers => (w.processes key).bind fun process =>
      if process.hasScope then none else some (w.childPolled key process answers waited)
    | _ => none
  | .spawn pid =>
    match w.call with
    | .spawn key =>
      some (({ w with world := w.world.spawn key pid w.scopes }.insert key
        ⟨pid, some w.world.starts.length, w.scopes, none⟩).done)
    | _ => none
  | .launchFails =>
    match w.call with
    | .spawn _ => some w.done
    | _ => none
  | .restart scopes => some { w with scopes := scopes, processes := fun _ => none, call := .idle }

/-- A machine with scopes on which nothing was started; exit files of other days may be there. -/
structure Fresh (w : Worker) : Prop where
  scopes : w.scopes = true
  starts : w.world.starts = []
  processes : ∀ key, w.processes key = none
  call : w.call = .idle
  answers : w.answers = []

/-- For each job at most one process was started. -/
def AtMostOneStart (w : Worker) : Prop := (w.world.starts.map Start.key).Nodup

/-- Once a Poll was answered an exit code, every later Poll of the job was answered the same. -/
def StableAnswers (w : Worker) : Prop :=
  w.answers.Pairwise fun first later => first.1 = later.1 →
    ∀ exitCode, first.2 = .polled (some exitCode) → later.2 = .polled (some exitCode)

end Worker

/-- A worker and its jobs, in any order of their steps. -/
def worker (names : Names) : LTS Worker WorkerEvent := .ofPerform (Worker.perform names)

/-- What must not happen: a call about a job outside `keys`; the last process of a job that the
daemon does not have in its map ending without an exit code on file; a restart without scopes, or
while a started job has neither a process in its scope nor an exit code on file, or while an exit
code that was answered is not the one on file. -/
def Worker.Safe (names : Names) (keys : Set Key) (w : Worker) : WorkerEvent → Prop
  | .call _ key => key ∈ keys
  | .change place change => ∀ start scope pid, w.world.starts[place]? = some start →
      start.scope = some scope → change = .dies pid → scope.procs = [pid] →
      w.processes start.key = none → w.world.files (names.exitFile start.key) ≠ none
  | .restart scopes => scopes = true ∧
    (∀ start ∈ w.world.starts, (∃ scope, start.scope = some scope ∧ scope.procs ≠ []) ∨
      w.world.files (names.exitFile start.key) ≠ none) ∧
    ∀ key exitCode, (key, Answer.polled (some exitCode)) ∈ w.answers →
      readExitCode (w.world.files (names.exitFile key)) = some exitCode
  | _ => True

end Roster
