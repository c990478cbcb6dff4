import Roster.Executor.Tail
import Roster.Scheduler.State

/-!
# Why a job ended badly

`exit_reason` names the exit and the last informative lines of the job's log; `add_reason` keeps
every reason a job collected.
-/

namespace Roster

/-- How many lines of the log go into a reason. -/
def reasonLines : ℕ := 3

/-- `char::is_whitespace`: the Unicode property White_Space. -/
def isWhitespace (c : Char) : Bool :=
  let n := c.val.toNat
  decide (9 ≤ n ∧ n ≤ 13 ∨ n = 32 ∨ n = 0x85 ∨ n = 0xA0 ∨ n = 0x1680 ∨ 0x2000 ≤ n ∧ n ≤ 0x200A ∨
    n = 0x2028 ∨ n = 0x2029 ∨ n = 0x202F ∨ n = 0x205F ∨ n = 0x3000)

/-- `text.split(['\n', '\r'])`. -/
def splitSegments : List Char → List (List Char)
  | [] => [[]]
  | c :: cs =>
    if c = '\n' ∨ c = '\r' then [] :: splitSegments cs
    else match splitSegments cs with
      | [] => [[c]]
      | segment :: segments => (c :: segment) :: segments

/-- `str::trim`. -/
def trimSegment (cs : List Char) : List Char :=
  ((cs.dropWhile isWhitespace).reverse.dropWhile isWhitespace).reverse

/-- A trimmed line that says something: not empty, not the cut notice, and not only the marks that
point at the line above. -/
def isInformative (line : List Char) : Bool :=
  !line.isEmpty && decide (line ≠ cutNotice.toList) && !line.all fun c => c = '^' ∨ c = '~'

/-- `exit_reason`. -/
def exitReason (exitCode : Int32) (tail : Option String) : String :=
  let ended :=
    if exitCode = -1 then "killed by a signal" else "exit " ++ toString exitCode.toInt
  let lines := ((splitSegments (tail.getD "").toList).map trimSegment).filter isInformative
  if lines.isEmpty then ended
  else ended ++ ": " ++
    String.intercalate " | " ((lines.drop (lines.length - reasonLines)).map String.ofList)

/-- `add_reason`. -/
def addReason (job : JobInstance) (reason : String) : JobInstance :=
  { job with reason := some (match job.reason with
      | some earlier => earlier ++ "; " ++ reason
      | none => reason) }

end Roster
