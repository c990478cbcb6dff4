import Mathlib.Data.UInt

/-!
# Workflow documents

The declared workflow as `spec.rs` keeps it: jobs with their dependencies and the resources each
one asks for.  A job that gives only VRAM is tried on 1, 2, 4 and 8 cards
(`ResourceSpec.gpuOptions`), each card holding an even share (`ResourceSpec.vramPerGpu`).
-/

namespace Roster

/-- Declared resource requirements of a job. -/
structure ResourceSpec where
  cpu : UInt32 := 1
  memoryMb : UInt64 := 512
  /-- Number of GPUs; 0 asks for none, or leaves the number open when `vramMb` is given. -/
  gpu : UInt32 := 0
  /-- VRAM across the job's GPUs, in MB; 0 takes any card. -/
  vramMb : UInt64 := 0
  deriving DecidableEq, Repr

/-- One job of a workflow. -/
structure JobSpec where
  id : String
  command : String
  dependsOn : List String := []
  resources : ResourceSpec := {}
  deriving DecidableEq, Repr

/-- A workflow document. -/
structure WorkflowSpec where
  name : String
  jobs : List JobSpec
  deriving DecidableEq, Repr

namespace ResourceSpec

/-- Card counts tried for a job that gives only VRAM. -/
def gpuCounts : List UInt32 := [1, 2, 4, 8]

/-- The requests to try, fewest cards first. -/
def gpuOptions (spec : ResourceSpec) : List ResourceSpec :=
  if 0 < spec.gpu ∨ spec.vramMb = 0 then [spec]
  else gpuCounts.map fun gpu => { spec with gpu := gpu }

/-- `a.div_ceil(b)` on `u64`. -/
def divCeil (a b : UInt64) : UInt64 := if 0 < a % b then a / b + 1 else a / b

/-- Each card's even share of the job's VRAM; 0 when the job asks for no GPU. -/
def vramPerGpu (spec : ResourceSpec) : UInt64 :=
  if spec.gpu = 0 then 0 else divCeil spec.vramMb spec.gpu.toUInt64

end ResourceSpec

end Roster
