/-!
# Where a job's files are

`PathBuf::join` on path texts, and the paths of a job's log.
-/

namespace Roster

/-- `base.join(path)`: an absolute path replaces the base. -/
def joinPath (base path : String) : String :=
  if path.startsWith "/" then path
  else if base = "" ∨ base.endsWith "/" then base ++ path
  else base ++ "/" ++ path

/-- Job log path relative to HOME, the same on every node. -/
def jobLogRelpath (runId jobId : String) : String :=
  joinPath (joinPath (joinPath (joinPath (joinPath ".local" "share") "roster") "runs") runId)
    (jobId ++ ".log")

/-- Log file path of a job on this machine. -/
def jobLogPath (home runId jobId : String) : String := joinPath home (jobLogRelpath runId jobId)

end Roster
