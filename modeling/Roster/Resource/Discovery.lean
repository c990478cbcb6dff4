import Roster.Resource.Accounts

/-!
# Which cards the node finds

`discover_gpus` asks NVML for the devices `0 … count-1` one by one and leaves out those that do not
answer, so a found card keeps its device index while its position is the number of devices before
it that answered.  The two agree, and the inventory is numbered by position, exactly when no device
that answers comes after one that does not (`discover_indexed`).
-/

namespace Roster

/-- What NVML says of one device; any of the queries may fail. -/
structure Device where
  name : Option String
  /-- Total memory, in bytes. -/
  memoryInfo : Option UInt64
  uuid : Option String

/-- NVML's answers: `device_count` and `device_by_index` may fail. -/
structure Nvml where
  deviceCount : Option UInt32
  deviceByIndex : UInt32 → Option Device

/-- The inventory entry of a device. -/
def Device.gpuInfo (index : UInt32) (device : Device) : GpuInfo where
  index := index
  name := device.name.getD "unknown"
  vramMb := (device.memoryInfo.map fun total => total / 1024 / 1024).getD 0
  uuid := device.uuid.getD ""

/-- `discover_gpus`: every device below the count that answers, in order; nothing without NVML or
without a count. -/
def discoverGpus : Option Nvml → List GpuInfo
  | none => []
  | some nvml =>
    match nvml.deviceCount with
    | none => []
    | some count => (List.range count.toNat).filterMap fun index =>
        (nvml.deviceByIndex (.ofNat index)).map (Device.gpuInfo (.ofNat index))

/-- `discover`: what jobs may use of the memory is the total less max(10 %, 1 GB), for the system
and the daemon. -/
def discover (cpus : UInt32) (totalMemory : UInt64) (nvml : Option Nvml) : SystemResources :=
  let totalMb := totalMemory / 1024 / 1024
  { cpuCores := cpus
    memoryMb := ResourcePool.satSub64 totalMb (max (totalMb / 10) 1024)
    gpus := discoverGpus nvml }

/-- No device that answers comes after one that does not. -/
def Gapless (nvml : Option Nvml) : Prop :=
  ∀ answers ∈ nvml, ∀ count ∈ answers.deviceCount, ∀ i < count,
    (answers.deviceByIndex i).isSome = true → ∀ j < i, (answers.deviceByIndex j).isSome = true

/-- The members of `0 … n-1` with a property are `0 … k-1` iff the property goes down. -/
theorem filter_range_eq_range (p : ℕ → Bool) (n : ℕ) :
    (List.range n).filter p = List.range ((List.range n).filter p).length ↔
      ∀ i < n, p i = true → ∀ j < i, p j = true := by
  constructor
  · intro h i hi hp j hj
    have hmem : i ∈ (List.range n).filter p := List.mem_filter.2 ⟨List.mem_range.2 hi, hp⟩
    rw [h, List.mem_range] at hmem
    have hmem' : j ∈ (List.range n).filter p := by
      rw [h, List.mem_range]
      exact hj.trans hmem
    exact (List.mem_filter.1 hmem').2
  · intro h
    induction n with
    | zero => rfl
    | succ n ih =>
      have ih := ih fun i hi => h i (hi.trans n.lt_succ_self)
      rw [List.range_succ, List.filter_append]
      by_cases hp : p n = true
      · -- the last one is in, so all are
        have hall : (List.range n).filter p = List.range n := List.filter_eq_self.2 fun i hi =>
          h n n.lt_succ_self hp i (List.mem_range.1 hi)
        rw [hall, List.filter_cons_of_pos hp, List.filter_nil, List.length_append,
          List.length_range, List.length_singleton, List.range_succ]
      · rwa [List.filter_cons_of_neg hp, List.filter_nil, List.append_nil]

/-- The indices of the cards found. -/
theorem discoverGpus_index (nvml : Nvml) {count : UInt32} (hcount : nvml.deviceCount = some count) :
    (discoverGpus (some nvml)).map (fun gpu => gpu.index.toNat) =
      (List.range count.toNat).filter fun i => (nvml.deviceByIndex (.ofNat i)).isSome := by
  simp only [discoverGpus, hcount, List.map_filterMap]
  rw [← List.filterMap_eq_filter]
  refine List.filterMap_congr fun i hi => ?_
  have hlt : i < UInt32.size := (List.mem_range.1 hi).trans count.toNat_lt
  cases hdevice : nvml.deviceByIndex (.ofNat i) with
  | none => simp [Option.guard, hdevice]
  | some device => simp [Option.guard, hdevice, Device.gpuInfo, UInt32.toNat_ofNat_of_lt' hlt]

/-- What is found is numbered by position iff no device was left out before one that answers. -/
theorem discover_indexed (cpus : UInt32) (totalMemory : UInt64) (nvml : Option Nvml) :
    (discover cpus totalMemory nvml).Indexed ↔ Gapless nvml := by
  cases nvml with
  | none => exact iff_of_true rfl (by simp [Gapless])
  | some nvml =>
  cases hcount : nvml.deviceCount with
  | none =>
    refine iff_of_true ?_ (by simp [Gapless, hcount])
    simp [SystemResources.Indexed, discover, discoverGpus, hcount]
  | some count =>
    have hindex := discoverGpus_index nvml hcount
    have hlen := congrArg List.length hindex
    rw [List.length_map] at hlen
    unfold SystemResources.Indexed discover
    simp only [hindex, hlen]
    rw [filter_range_eq_range]
    simp only [Gapless, Option.mem_def, Option.some.injEq, forall_eq', hcount]
    constructor
    · intro h i hi hsome j hj
      have hdown := h i.toNat (UInt32.lt_iff_toNat_lt.1 hi) (by simpa using hsome) j.toNat
        (UInt32.lt_iff_toNat_lt.1 hj)
      simpa using hdown
    · intro h i hi hsome j hj
      have hlt : i < UInt32.size := hi.trans count.toNat_lt
      refine h (.ofNat i) ?_ hsome (.ofNat j) ?_
      · rwa [UInt32.lt_iff_toNat_lt, UInt32.toNat_ofNat_of_lt' hlt]
      · rwa [UInt32.lt_iff_toNat_lt, UInt32.toNat_ofNat_of_lt' hlt,
          UInt32.toNat_ofNat_of_lt' (hj.trans hlt)]

end Roster
