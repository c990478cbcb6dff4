import Roster.Executor.Remote
import Roster.Scheduler.Reason

/-!
# Polling a process

`ShellExecutor::poll` asks the operating system about one job: about the exit file and the processes
of its scope when it has one (`pollScope`), about the child itself when it has none (`pollChild`).
What it makes of every answer is here, and so is what the node's worker keeps of it and tells the
controller (`Process.check`, `Process.reply`).

`ShellExecutor.poll_evidence_iff` : a poll answers exit code 0 only on evidence, unless the job has
no scope and `waitpid` knows no such child.
-/

namespace Roster

/-! ### Answers of the operating system -/

/-- What one poll is answered: by `waitpid`, by the exit file if it can be read, and about the
processes of the scope. -/
structure OsAnswers where
  waited : Except WaitError WaitStatus
  /-- What is in the exit file; `none` when it is missing or can't be read. -/
  exitFile : Option String
  /-- The cgroup file of the process names the scope. -/
  inScope : Bool
  scopePids : List ℕ
  deriving DecidableEq

/-- `str::parse::<i32>`: a sign, then digits, and the number fits. -/
def parseI32 (text : List Char) : Option Int32 :=
  let (negative, digits) := match text with
    | '-' :: digits => (true, digits)
    | '+' :: digits => (false, digits)
    | digits => (false, digits)
  if digits = [] ∨ ¬ digits.all Char.isDigit then none
  else
    let magnitude := digits.foldl (fun n c => 10 * n + (c.toNat - '0'.toNat)) 0
    let value : ℤ := if negative then -magnitude else magnitude
    if -2 ^ 31 ≤ value ∧ value < 2 ^ 31 then some (Int32.ofInt value) else none

/-- The number in an exit file. -/
def parseExitFile (text : String) : Option Int32 := parseI32 (trimSegment text.toList)

example : (parseExitFile "0\n", parseExitFile "-1", parseExitFile "", parseExitFile "0 1",
    parseExitFile "2147483648") = (some 0, some (-1), none, none, none) := by decide

/-! ### The poll -/

/-- The scope and the exit file of a local job, when it has both. -/
def JobHandle.scoped (handle : JobHandle) : Bool :=
  match handle.backend with
  | .process (some _) (some _) => true
  | _ => false

namespace ShellExecutor

/-- `ShellExecutor::poll`. -/
def poll (handle : JobHandle) (os : OsAnswers) : Except ExecutorError PollResult :=
  if handle.scoped then
    .ok (pollScope (decide (0 < handle.hostPid) && decide (os.waited = .ok .stillAlive))
      (os.exitFile.bind parseExitFile) (decide (0 < handle.hostPid) && os.inScope) os.scopePids)
  else pollChild os.waited

/-- The job ended with code 0: `waitpid` says so of its process, or its exit file does. -/
def Evidence (handle : JobHandle) (os : OsAnswers) : Prop :=
  os.waited = .ok (.exited 0) ∨
    handle.scoped = true ∧ os.exitFile.bind parseExitFile = some 0

/-- A job without a scope is polled whose process is no child of the daemon any more. -/
def Reaped (handle : JobHandle) (os : OsAnswers) : Prop :=
  handle.scoped = false ∧ os.waited = .error .noChild

instance (handle : JobHandle) (os : OsAnswers) : Decidable (Evidence handle os) :=
  inferInstanceAs (Decidable (_ ∨ _))

theorem readExitCode_eq_zero {exitFile : Option Int32} (h : readExitCode exitFile = some 0) :
    exitFile = some 0 := by
  obtain ⟨code, hcode, hread⟩ := Option.map_eq_some_iff.1 h
  split at hread
  · exact absurd hread (by decide)
  · rw [hcode, hread]

/-- A poll of a scope that answers 0 has read it. -/
theorem pollScope_eq_zero {stillAlive : Bool} {exitFile : Option Int32} {inScope : Bool}
    {pids : List ℕ} (h : pollScope stillAlive exitFile inScope pids = .exited 0) :
    exitFile = some 0 := by
  unfold pollScope at h
  split at h
  · cases h
  split at h
  · next code hread =>
    obtain rfl := PollResult.exited.inj h
    exact readExitCode_eq_zero hread
  · split at h
    · cases h
    · exact absurd (PollResult.exited.inj h) (by decide)

/-- A poll of a child answers 0 when `waitpid` does, or when there is no such child. -/
theorem pollChild_eq_zero {waited : Except WaitError WaitStatus} :
    pollChild waited = .ok (.exited 0) ↔
      waited = .ok (.exited 0) ∨ waited = .error .noChild := by
  rcases waited with (_ | _) | (_ | _ | _ | _) <;> simp [pollChild]

/-- **When exit code 0 is evidence.**  Whatever the operating system answers, a poll says that the
job ended with code 0 only if `waitpid` or the exit file did, exactly unless the job has no scope
and `waitpid` knows no such child. -/
theorem poll_evidence_iff (handle : JobHandle) (os : OsAnswers) :
    (poll handle os = .ok (.exited 0) → Evidence handle os) ↔ ¬ Reaped handle os := by
  unfold poll Evidence Reaped
  cases hscoped : handle.scoped with
  | true =>
    simp only [↓reduceIte, Except.ok.injEq, true_and, Bool.true_eq_false, false_and,
      not_false_eq_true, iff_true]
    exact fun h => .inr (pollScope_eq_zero h)
  | false =>
    simp only [Bool.false_eq_true, ↓reduceIte, false_and, or_false, true_and, pollChild_eq_zero]
    constructor
    · intro h hnone
      exact absurd ((h (.inr hnone)).symm.trans hnone) (by simp)
    · rintro hnone (h | h)
      · exact h
      · exact absurd h hnone

end ShellExecutor

/-! ### What the worker keeps -/

/-- `JobProcess`: the job a node started or found, and its exit code once known. -/
structure Process where
  handle : JobHandle
  /-- Kept after the exit, so that a repeated Poll gets the same answer. -/
  exitCode : Option Int32
  deriving DecidableEq

namespace Process

/-- `JobProcess::exit_code`: check the process unless its exit is known already. -/
def check (process : Process) (os : OsAnswers) : Except ExecutorError Process :=
  if process.exitCode = none then
    match ShellExecutor.poll process.handle os with
    | .ok (.exited exitCode) => .ok { process with exitCode := some exitCode }
    | .ok .running => .ok process
    | .error error => .error error
  else .ok process

/-- What the map holds after the check; a check that fails changes nothing. -/
def checked (process : Process) (os : OsAnswers) : Process :=
  match process.check os with
  | .ok process => process
  | .error _ => process

/-- `Worker::poll`, for a job the worker knows. -/
def reply (process : Process) (os : OsAnswers) : Response :=
  match process.check os with
  | .ok process => .polled process.exitCode
  | .error error => .error ("poll failed: " ++ error.toString)

variable {process : Process} {os : OsAnswers}

/-- A code is known after the check if it was before, or if the poll answers it. -/
theorem checked_exitCode {exitCode : Int32} (h : (process.checked os).exitCode = some exitCode) :
    process.exitCode = some exitCode ∨ process.exitCode = none ∧
      ShellExecutor.poll process.handle os = .ok (.exited exitCode) := by
  unfold checked check at h
  by_cases hnone : process.exitCode = none
  · rw [if_pos hnone] at h
    cases hpoll : ShellExecutor.poll process.handle os with
    | error error => rw [hpoll] at h; exact .inl h
    | ok result =>
      cases result with
      | running => rw [hpoll] at h; exact .inl h
      | exited code =>
        rw [hpoll] at h
        exact .inr ⟨hnone, by rw [Option.some.inj h]⟩
  · rw [if_neg hnone] at h
    exact .inl h

/-- The worker answers the code it keeps. -/
theorem reply_eq_polled {exitCode : Int32} (h : process.reply os = .polled (some exitCode)) :
    (process.checked os).exitCode = some exitCode := by
  unfold reply at h
  unfold checked
  cases hcheck : process.check os with
  | error _ => rw [hcheck] at h; cases h
  | ok after =>
    rw [hcheck] at h
    exact Response.polled.inj h

end Process

end Roster
