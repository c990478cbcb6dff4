import Roster.Data.Exec
import Roster.Workflow.Spec

/-!
# Resource pools

`ResourcePool` is one node's free resources, as `pool.rs` keeps them: free cores and memory, and
per card the VRAM that is not booked.  A card is free when none of its VRAM is booked, and it is
only ever handed out whole.

The slots `availableVramMb` and `blocked` are filled in the order of the inventory but read and
written at a card's *index*, so an operation panics when a card's index is not a position.
-/

namespace Roster

/-- A GPU of a node's inventory. -/
structure GpuInfo where
  index : UInt32
  name : String := ""
  vramMb : UInt64
  uuid : String := ""
  deriving DecidableEq, Repr

/-- A node's inventory. -/
structure SystemResources where
  cpuCores : UInt32
  memoryMb : UInt64
  gpus : List GpuInfo
  deriving DecidableEq, Repr

/-- One whole GPU within an allocation. -/
structure GpuAllocation where
  index : UInt32
  vramMb : UInt64
  deriving DecidableEq, Repr

/-- What an execution holds on its node. -/
structure Allocation where
  cpu : UInt32
  memoryMb : UInt64
  gpus : List GpuAllocation
  deriving DecidableEq, Repr

/-- A node's inventory and what of it is free. -/
structure ResourcePool where
  total : SystemResources
  availableCpu : UInt32
  availableMemoryMb : UInt64
  /-- Free VRAM, per GPU. -/
  availableVramMb : List UInt64
  /-- Per GPU: not handed out now. -/
  blocked : List Bool
  deriving DecidableEq, Repr

/-- The whole of a card, as an allocation names it. -/
def GpuInfo.whole (gpu : GpuInfo) : GpuAllocation := ⟨gpu.index, gpu.vramMb⟩

namespace ResourcePool

/-- `ResourcePool::new`: available starts equal to total. -/
def new (resources : SystemResources) : ResourcePool where
  total := resources
  availableCpu := resources.cpuCores
  availableMemoryMb := resources.memoryMb
  availableVramMb := resources.gpus.map GpuInfo.vramMb
  blocked := List.replicate resources.gpus.length false

/-- `a.saturating_sub(b)` on `u32`. -/
def satSub32 (a b : UInt32) : UInt32 := if b ≤ a then a - b else 0

/-- `a.saturating_sub(b)` on `u64`. -/
def satSub64 (a b : UInt64) : UInt64 := if b ≤ a then a - b else 0

/-- Book one card of an allocation already in use; a slot the pool lacks is skipped. -/
def bookCard (slots : List UInt64) (gpu : GpuAllocation) : List UInt64 :=
  slots.modify gpu.index.toNat fun free => satSub64 free gpu.vramMb

/-- `ResourcePool::book`: count an allocation already in use; it can't refuse. -/
def book (pool : ResourcePool) (alloc : Allocation) : ResourcePool :=
  { pool with
    availableCpu := satSub32 pool.availableCpu alloc.cpu
    availableMemoryMb := satSub64 pool.availableMemoryMb alloc.memoryMb
    availableVramMb := alloc.gpus.foldl bookCard pool.availableVramMb }

/-- `ResourcePool::reserve_card`: book one whole card for roster's own use. -/
def reserveCard (pool : ResourcePool) (index : UInt32) :
    Exec (Option Allocation × ResourcePool) :=
  match pool.total.gpus.find? fun gpu => decide (gpu.index = index) with
  | none => .ok (none, pool)
  | some gpu =>
    if gpu.vramMb = 0 then .ok (none, pool)
    else do
      let free ← Exec.index pool.availableVramMb index.toNat
      if free ≠ gpu.vramMb then
        return (none, pool)
      else
        return (some ⟨0, 0, [⟨index, gpu.vramMb⟩]⟩,
          { pool with availableVramMb := pool.availableVramMb.set index.toNat 0 })

/-- The loop of `try_find_gpus`: the first `n` cards of `gpus` that report VRAM, have none of it
booked, are not blocked and hold at least `share`.  The iterator is lazy: nothing after the
`n`-th card is looked at. -/
def selectGpus (pool : ResourcePool) (share : UInt64) : ℕ → List GpuInfo → Exec (List GpuAllocation)
  | 0, _ => .ok []
  | _ + 1, [] => .ok []
  | n + 1, gpu :: gpus =>
    if gpu.vramMb = 0 then selectGpus pool share (n + 1) gpus
    else do
      let free ← Exec.index pool.availableVramMb gpu.index.toNat
      if free ≠ gpu.vramMb then selectGpus pool share (n + 1) gpus
      else
        let blocked ← Exec.index pool.blocked gpu.index.toNat
        if blocked ∨ gpu.vramMb < share then selectGpus pool share (n + 1) gpus
        else
          let rest ← selectGpus pool share n gpus
          return gpu.whole :: rest

/-- `ResourcePool::try_find_gpus`: first-fit by index, whole GPUs. -/
def tryFindGpus (pool : ResourcePool) (spec : ResourceSpec) :
    Exec (Option (List GpuAllocation)) :=
  if spec.gpu = 0 then .ok (some [])
  else do
    let selected ← pool.selectGpus spec.vramPerGpu spec.gpu.toNat pool.total.gpus
    return if selected.length = spec.gpu.toNat then some selected else none

/-- `ResourcePool::can_admit`. -/
def canAdmit (pool : ResourcePool) (spec : ResourceSpec) : Exec Bool := do
  let found ← pool.tryFindGpus spec
  return found.isSome && decide (spec.cpu ≤ pool.availableCpu) &&
    decide (spec.memoryMb ≤ pool.availableMemoryMb)

/-- `ResourcePool::could_fit`: compared against totals rather than free resources. -/
def couldFit (pool : ResourcePool) (spec : ResourceSpec) : Bool :=
  let matchingGpus := pool.total.gpus.countP fun gpu =>
    decide (0 < gpu.vramMb) && decide (spec.vramPerGpu ≤ gpu.vramMb)
  decide (spec.cpu ≤ pool.total.cpuCores) && decide (spec.memoryMb ≤ pool.total.memoryMb) &&
    decide (spec.gpu.toNat ≤ matchingGpus)

/-- Subtract an allocation's cards from the slots. -/
def takeCards (slots : List UInt64) (gpus : List GpuAllocation) : Exec (List UInt64) :=
  gpus.foldlM (fun slots gpu =>
    Exec.update slots gpu.index.toNat fun free => Exec.subU64 free gpu.vramMb) slots

/-- Add an allocation's cards back to the slots. -/
def returnCards (slots : List UInt64) (gpus : List GpuAllocation) : Exec (List UInt64) :=
  gpus.foldlM (fun slots gpu =>
    Exec.update slots gpu.index.toNat fun free => Exec.addU64 free gpu.vramMb) slots

/-- `ResourcePool::try_reserve`: check and reserve, or leave the pool as it is. -/
def tryReserve (pool : ResourcePool) (spec : ResourceSpec) :
    Exec (Option Allocation × ResourcePool) :=
  if pool.availableCpu < spec.cpu then .ok (none, pool)
  else if pool.availableMemoryMb < spec.memoryMb then .ok (none, pool)
  else do
    let found ← (if spec.gpu = 0 then .ok (some []) else pool.tryFindGpus spec)
    match found with
    | none => return (none, pool)
    | some gpus =>
      let cpu ← Exec.subU32 pool.availableCpu spec.cpu
      let memoryMb ← Exec.subU64 pool.availableMemoryMb spec.memoryMb
      let slots ← takeCards pool.availableVramMb gpus
      return (some ⟨spec.cpu, spec.memoryMb, gpus⟩,
        { pool with
          availableCpu := cpu, availableMemoryMb := memoryMb, availableVramMb := slots })

/-- `ResourcePool::release`: give an allocation back. -/
def release (pool : ResourcePool) (alloc : Allocation) : Exec ResourcePool := do
  let cpu ← Exec.addU32 pool.availableCpu alloc.cpu
  let memoryMb ← Exec.addU64 pool.availableMemoryMb alloc.memoryMb
  let slots ← returnCards pool.availableVramMb alloc.gpus
  return { pool with
    availableCpu := cpu, availableMemoryMb := memoryMb, availableVramMb := slots }

end ResourcePool

end Roster
