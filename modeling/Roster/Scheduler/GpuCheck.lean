import Roster.Scheduler.State

/-!
# The GPU check

The locked sections of `check_gpus`: releasing the cards of qualifications that ended, deciding
from the readings which cards stay out of placement, and starting the qualifications that are due.
-/

namespace Roster

/-- How often an idle card is tested again: 24 h. -/
def qualifyEvery : ℤ := 24 * 3600 * 1000000000

/-- How long a test may take: 20 min. -/
def qualifyTimeout : ℕ := 20 * 60 * 1000000000

/-- How long to wait for the node's readings to show a finished test: 60 s. -/
def qualifySettle : ℕ := 60 * 1000000000

/-! ### Finishing qualifications -/

/-- The qualification is over after this poll: it ended, its node does not know it, or it is past
its timeout and gets cancelled, whatever the cancel returns.  While it runs, or while the node
cannot be asked, the card stays held. -/
def Qualification.isOver (qualification : Qualification) (now : Instant) :
    Except ExecutorError PollResult → Bool
  | .ok .running => decide (qualifyTimeout < now - qualification.started)
  | .error (.unreachable _) => false
  | .ok (.exited _) => true
  | .error _ => true

/-- Release the cards of the qualifications that ended. -/
def finishQualifications (pools : List ResourcePool) (ended : List Qualification) :
    Exec (List ResourcePool) :=
  ended.foldlM (fun pools qualification =>
    releaseOn pools (qualification.node, qualification.allocation)) pools

/-! ### Blocking cards -/

/-- What a node shows during the check: whether it is up when its turn comes, its last reading,
and whether it is still up when a card is looked at. -/
structure NodeView where
  online : Bool
  reading : Option (List GpuHealth)
  stillOnline : UInt32 → Bool

/-- What the check works on while it goes over a node's cards. -/
structure CardCheck where
  pool : ResourcePool
  requalify : List (ℕ × UInt32)
  toQualify : List ToQualify

/-- The reading of a card. -/
def readingOf (reading : List GpuHealth) (gpu : GpuInfo) : Option GpuHealth :=
  reading.find? fun health => decide (health.index = gpu.index)

/-- Block or unblock a card by its reading. -/
def blockCard (pool : ResourcePool) (health : Option GpuHealth) (gpu : GpuInfo) :
    Exec ResourcePool := do
  let free ← Exec.index pool.availableVramMb gpu.index.toNat
  let reason := health.bind fun health => health.blocked (decide (free = gpu.vramMb))
  let blocked ← Exec.update pool.blocked gpu.index.toNat fun _ => .ok reason.isSome
  return { pool with blocked := blocked }

/-- The card is due for a test and idle, and its last test is not too recent. -/
def dueForTest (requalify : List (ℕ × UInt32)) (lastQualified : List ((ℕ × UInt32) × Instant))
    (utc : DateTime) (now : Instant) (key : ℕ × UInt32) (health : GpuHealth) : Bool :=
  let due := decide (key ∈ requalify) || match health.testedAt with
    | none => true
    | some tested => decide (qualifyEvery < utc - tested)
  let recent := match Keyed.get? Prod.fst lastQualified key with
    | some (_, last) => decide (now - last < qualifySettle)
    | none => false
  let idle := !health.busy && health.throttled.isEmpty
  due && !recent && idle

/-- One card of the check: decide whether it is handed out, and reserve it if it is to be
qualified. -/
def checkCard (node : ℕ) (view : NodeView) (reading : List GpuHealth)
    (lastQualified : List ((ℕ × UInt32) × Instant)) (utc : DateTime) (now : Instant)
    (check : CardCheck) (gpu : GpuInfo) : Exec CardCheck := do
  let pool ← blockCard check.pool (readingOf reading gpu) gpu
  match readingOf reading gpu with
  | none => return { check with pool := pool }
  | some health =>
    if dueForTest check.requalify lastQualified utc now (node, gpu.index) health &&
        view.stillOnline gpu.index then
      let (found, pool) ← pool.reserveCard gpu.index
      match found with
      | none => return { check with pool := pool }
      | some allocation =>
        return {
          pool := pool
          requalify := check.requalify.filter fun key => decide (key ≠ (node, gpu.index))
          toQualify := check.toQualify ++
            [⟨node, gpu, health.quarantined.isSome, allocation⟩] }
    else return { check with pool := pool }

/-- One node of the check: without a reading of an online node, all its cards wait. -/
def checkNode (node : ℕ) (view : NodeView) (lastQualified : List ((ℕ × UInt32) × Instant))
    (utc : DateTime) (now : Instant) (check : CardCheck) : Exec CardCheck :=
  match view.reading.filter fun _ => view.online with
  | none =>
    .ok { check with pool := { check.pool with
      blocked := List.replicate check.pool.blocked.length true } }
  | some reading =>
    check.pool.total.gpus.foldlM (checkCard node view reading lastQualified utc now) check

/-- The nodes of the check, from `node` on. -/
def checkNodes (lastQualified : List ((ℕ × UInt32) × Instant)) (utc : DateTime) (now : Instant)
    (node : ℕ) : List NodeView → List ResourcePool × List (ℕ × UInt32) × List ToQualify →
      Exec (List ResourcePool × List (ℕ × UInt32) × List ToQualify)
  | [], acc => .ok acc
  | view :: views, (pools, requalify, toQualify) => do
    let pool ← Exec.index pools node
    let check ← checkNode node view lastQualified utc now ⟨pool, requalify, toQualify⟩
    checkNodes lastQualified utc now (node + 1) views
      (pools.set node check.pool, check.requalify, check.toQualify)

/-- The locked section of `check_gpus`. -/
def blockGpus (daemon : DaemonState) (checks : GpuChecks) (views : List NodeView) (utc : DateTime)
    (now : Instant) : Exec (DaemonState × List ToQualify) := do
  let (pools, requalify, toQualify) ←
    checkNodes checks.lastQualified utc now 0 views (daemon.pools, daemon.requalify, [])
  return ({ daemon with pools := pools, requalify := requalify }, toQualify)

/-! ### Starting qualifications -/

/-- The internal job `start_qualification` launches. -/
def qualifyJob (gpu : GpuInfo) (retest : Bool) : JobInstance :=
  .new {
    id := "gpu" ++ toString gpu.index.toNat
    command := "\"$ROSTER_BIN\" qualify --index " ++ toString gpu.index.toNat ++
      (if gpu.uuid = "" then "" else " --uuid " ++ gpu.uuid) ++
      (if retest then " --retest" else "") } 0

/-- Note that the card is being qualified and, if the launch succeeded, keep its qualification;
else give the card back. -/
def startQualification (pools : List ResourcePool) (checks : GpuChecks) (card : ToQualify)
    (launched : Except ExecutorError JobHandle) (now : Instant) :
    Exec (List ResourcePool × GpuChecks) := do
  let lastQualified :=
    Keyed.insert Prod.fst checks.lastQualified ((card.node, card.gpu.index), now)
  match launched with
  | .ok handle =>
    return (pools, {
      qualifying := checks.qualifying ++
        [⟨card.node, card.gpu.index, card.allocation, handle, now⟩]
      lastQualified := lastQualified })
  | .error _ =>
    let pools ← releaseOn pools (card.node, card.allocation)
    return (pools, { checks with lastQualified := lastQualified })

end Roster
