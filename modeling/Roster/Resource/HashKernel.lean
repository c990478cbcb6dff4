import Roster.Resource.Ptx

/-!
# Hash chains on the card and on the CPU

The `hash` kernel runs an integer hash chain in every thread and stores its end; `test` compares
each with the chain computed on the CPU (`hash`).

`hash_agrees` : for every grid, every number of rounds and every interleaving, the slots hold what
the CPU computes, so the comparison counts exactly the slots where a card went wrong.
-/

namespace Roster

namespace Ptx

open Threads

/-- The `hash` kernel. -/
def hashKernel : List Instr := [
  .op (.ldParam64 1 .hashOut),
  .op (.ldParam32 1 .hashRounds),
  .op (.movCtaid 2),
  .op (.movNtid 3),
  .op (.movTid 4),
  .op (.madLo32 5 (.r 2) (.r 3) (.r 4)),
  .op (.mov32 6 (.r 5)),
  .op (.mov32 7 (.imm 0)),
  .label .hashLoop,
  .op (.setpGe32 1 (.r 7) (.r 1)),
  .braIf 1 .hashDone,
  .op (.madLo32 6 (.r 6) (.imm 1664525) (.imm 1013904223)),
  .op (.shr32 8 (.r 6) (.imm 13)),
  .op (.xor32 6 (.r 6) (.r 8)),
  .op (.add32 7 (.r 7) (.imm 1)),
  .bra .hashLoop,
  .label .hashDone,
  .op (.cvtaToGlobal 2 1),
  .op (.mulWide32 3 (.r 5) (.imm 4)),
  .op (.add64 4 2 3),
  .st 4 6,
  .ret]

/-- The parameters `test` launches it with. -/
def hashParams (out : UInt64) (rounds : UInt32) : Params where
  param64 _ := out
  param32 _ := rounds

/-- One round on the CPU. -/
def hashRound (value : UInt32) : UInt32 :=
  let value := value * 1664525 + 1013904223
  value ^^^ (value >>> 13)

/-- `hash`, the CPU side. -/
def hash (index rounds : UInt32) : UInt32 := hashRound^[rounds.toNat] index

/-- How many results differ from the CPU's. -/
def wrongChains (rounds : UInt32) (results : List UInt32) : ℕ :=
  results.zipIdx.countP fun result => result.1 ≠ hash (UInt32.ofNat result.2) rounds

/-- The comparison in `test`. -/
def compareChains (rounds : UInt32) (results : List UInt32) : Except String Unit :=
  let wrong := wrongChains rounds results
  if 0 < wrong then .error s!"{wrong} of {results.length} hash chains wrong" else .ok ()

/-! ### A thread of the kernel -/

section Thread

variable {blocks : ℕ} {out : UInt64} {rounds : UInt32} {place : Place blocks} {regs : Registers}
  {i value : UInt32}

/-- The registers at `hash_loop` after `i` rounds. -/
structure HashAt (out : UInt64) (rounds index i value : UInt32) (regs : Registers) : Prop where
  out : regs.rd 1 = out
  rounds : regs.r 1 = rounds
  index : regs.r 5 = index
  value : regs.r 6 = value
  i : regs.r 7 = i

/-- From `hash_done` on, the value is stored. -/
theorem hash_done {index : ℕ} (hout : out % 4 = 0) (hindex : index < 2 ^ 32) (rounds : UInt32)
    (ctx : Context) : ∃ n, ∀ regs i value,
      HashAt out rounds (UInt32.ofNat index) i value regs →
      Runs (Thread.next hashKernel) ⟨ctx, 16, regs⟩ n [.store (wordAt out index) value] := by
  refine ⟨_, fun regs i value h => runs_label rfl
    (runs_ops [.cvtaToGlobal 2 1, .mulWide32 3 (.r 5) (.imm 4), .add64 4 2 3] ⟨_, rfl⟩
      (runs_st rfl ?_ ?_ (wordAt_aligned hout index) (runs_ret rfl)))⟩
  · simp [Op.eval, Operand.eval, h.out, h.index, toUInt64_ofNat hindex, wordAt, mul_comm]
  · simp [Op.eval, h.value]

/-- The loop, with `k` rounds to go. -/
theorem hash_loop {index : ℕ} (hout : out % 4 = 0) (hindex : index < 2 ^ 32) (rounds : UInt32)
    (ctx : Context) (k : ℕ) : ∃ n, ∀ regs i value last,
      HashAt out rounds (UInt32.ofNat index) i value regs → i.toNat + k = rounds.toNat →
      hashRound^[k] value = last →
      Runs (Thread.next hashKernel) ⟨ctx, 8, regs⟩ n [.store (wordAt out index) last] := by
  induction k with
  | zero =>
    obtain ⟨n, hn⟩ := hash_done hout hindex rounds ctx
    refine ⟨_, fun regs i value last h hk hlast => runs_label rfl
      (runs_ops [.setpGe32 1 (.r 7) (.r 1)] ⟨_, rfl⟩
        (runs_braIf_taken rfl rfl ?_ (hn _ i last ?_)))⟩
    · have hdone : rounds ≤ i := UInt32.le_iff_toNat_le.2 (by omega)
      simp [Op.eval, Operand.eval, h.rounds, h.i, hdone]
    · rw [Function.iterate_zero_apply] at hlast
      constructor <;> simp [Op.eval, h.out, h.rounds, h.index, h.value, h.i, hlast]
  | succ k ih =>
    obtain ⟨n, hn⟩ := ih
    refine ⟨_, fun regs i value last h hk hlast => runs_label rfl
      (runs_ops [.setpGe32 1 (.r 7) (.r 1)] ⟨_, rfl⟩ (runs_braIf_skipped rfl ?_
        (runs_ops [.madLo32 6 (.r 6) (.imm 1664525) (.imm 1013904223), .shr32 8 (.r 6) (.imm 13),
          .xor32 6 (.r 6) (.r 8), .add32 7 (.r 7) (.imm 1)] ⟨_, rfl⟩
          (runs_bra rfl rfl (hn _ (i + 1) (hashRound value) last ?_ ?_ ?_)))))⟩
    · have hmore : ¬ rounds ≤ i := fun hle => by
        have := UInt32.le_iff_toNat_le.1 hle
        omega
      simp [Op.eval, Operand.eval, h.rounds, h.i, hmore]
    · constructor <;> simp [Op.eval, Operand.eval, shiftRight32, hashRound, h.out, h.rounds,
        h.index, h.value, h.i]
    · have hlt := rounds.toNat_lt
      have hone : (1 : UInt32).toNat = 1 := rfl
      rw [UInt32.toNat_add, hone, Nat.mod_eq_of_lt] <;> omega
    · rw [← Function.iterate_succ_apply]
      exact hlast

/-- A thread stores the end of its chain. -/
theorem hash_thread (hout : out % 4 = 0) (rounds : UInt32)
    (hblocks : blocks * threadsPerBlock < 2 ^ 32) (place : Place blocks) (regs : Registers) :
    ∃ n, Runs (Thread.next hashKernel) ⟨(hashParams out rounds).context place, 0, regs⟩ n
      [.store (wordAt out place.index) (hash (UInt32.ofNat place.index) rounds)] := by
  obtain ⟨n, hn⟩ := hash_loop hout (place.index_lt.trans hblocks) rounds
    ((hashParams out rounds).context place) rounds.toNat
  refine ⟨_, runs_ops [.ldParam64 1 .hashOut, .ldParam32 1 .hashRounds, .movCtaid 2, .movNtid 3,
    .movTid 4, .madLo32 5 (.r 2) (.r 3) (.r 4), .mov32 6 (.r 5), .mov32 7 (.imm 0)] ⟨_, rfl⟩
    (hn _ 0 (UInt32.ofNat place.index) _ ?_ (Nat.zero_add _) rfl)⟩
  constructor <;> simp [Op.eval, Operand.eval, index_eq, hashParams, Params.context]

end Thread

/-! ### The whole grid -/

section Grid

variable {blocks : ℕ} {out : UInt64} {rounds : UInt32}

/-- Each thread stores into its own slot. -/
def hashPlan (out : UInt64) (rounds : UInt32) (place : Place blocks) :
    List (Access UInt64 UInt32) :=
  [.store (wordAt out place.index) (hash (UInt32.ofNat place.index) rounds)]

theorem slot_injective (hblocks : blocks * threadsPerBlock < 2 ^ 32) {a b : Place blocks}
    (h : wordAt out a.index = wordAt out b.index) : a = b :=
  Place.index_injective
    (wordAt_injective (a.index_lt.trans hblocks) (b.index_lt.trans hblocks) h)

theorem hash_planned (hblocks : blocks * threadsPerBlock < 2 ^ 32) (hout : out % 4 = 0)
    (rounds : UInt32) (view : UInt64 → UInt32 → UInt32) (memory : UInt64 → UInt32)
    (regs : Place blocks → Registers) : Planned (Thread.next hashKernel) view memory
      ((hashParams out rounds).threads regs) (hashPlan out rounds) where
  runs place := hash_thread hout rounds hblocks place (regs place)
  compatible := by
    refine ⟨?_, fun a b addr v w ha hb => ?_, ?_, ?_⟩
    · simp [hashPlan]
    · simp only [hashPlan, List.mem_singleton, Access.store.injEq] at ha hb
      obtain rfl := slot_injective hblocks (ha.1.symm.trans hb.1)
      rw [ha.2, hb.2]
    · simp [hashPlan]
    · simp [hashPlan]

/-- What is compared: slot by slot, what was copied from the card. -/
theorem wrongChains_copyToHost (rounds : UInt32) (memory : UInt64 → UInt32) (count : ℕ) :
    wrongChains rounds (copyToHost memory out count) =
      (List.range count).countP fun i => memory (wordAt out i) ≠ hash (UInt32.ofNat i) rounds := by
  have hzip : (copyToHost memory out count).zipIdx =
      (List.range count).map fun i => (memory (wordAt out i), i) := by
    refine List.ext_getElem (by simp [copyToHost]) fun i _ _ => ?_
    simp [copyToHost]
  rw [wrongChains, hzip, List.countP_map]
  rfl

/-- **The two hash chains agree**: the launch ends; then every slot holds what the CPU computes for
it, stored there once, nothing else in memory has changed, and the comparison finds nothing.  Of
whatever a card leaves there the comparison counts the slots that are wrong. -/
theorem hash_agrees (blocks : ℕ) (hblocks : blocks * threadsPerBlock < 2 ^ 32) (out : UInt64)
    (hout : out % 4 = 0) (rounds : UInt32) (view : UInt64 → UInt32 → UInt32)
    (memory : UInt64 → UInt32) :
    Terminates hashKernel (hashParams out rounds) blocks view memory ∧
      (∀ labels memory',
        Launched hashKernel (hashParams out rounds) blocks view memory labels memory' →
        (∀ i < blocks * threadsPerBlock,
          memory' (wordAt out i) = hash (UInt32.ofNat i) rounds ∧
          labels.countP (fun label => label.2.any (Access.storesTo (wordAt out i))) = 1) ∧
        (∀ a, (∀ i < blocks * threadsPerBlock, a ≠ wordAt out i) → memory' a = memory a) ∧
        compareChains rounds (copyToHost memory' out (blocks * threadsPerBlock)) = .ok ()) ∧
      ∀ memory' : UInt64 → UInt32,
        wrongChains rounds (copyToHost memory' out (blocks * threadsPerBlock)) =
          (List.range (blocks * threadsPerBlock)).countP fun i =>
            memory' (wordAt out i) ≠ hash (UInt32.ofNat i) rounds := by
  refine ⟨fun regs => (hash_planned hblocks hout rounds view memory regs).exists_complete,
    fun labels memory' ⟨regs, s, htrace, hdone, hmemory⟩ => ?_,
    fun memory' => wrongChains_copyToHost rounds memory' _⟩
  have hplanned := hash_planned hblocks hout rounds view memory regs
  obtain ⟨haccesses, hstored, hkept⟩ := hplanned.complete htrace hdone
  rw [hmemory] at hstored hkept
  have hslot : ∀ i < blocks * threadsPerBlock,
      memory' (wordAt out i) = hash (UInt32.ofNat i) rounds := by
    intro i hi
    obtain ⟨place, rfl⟩ := Place.exists_index hi
    exact hstored place _ _ List.mem_cons_self
  refine ⟨fun i hi => ⟨hslot i hi, ?_⟩, fun a ha => ?_, ?_⟩
  -- the thread with that index stores in the slot, and no other does
  · obtain ⟨place, rfl⟩ := Place.exists_index hi
    rw [countP_labels, Finset.sum_eq_single place]
    · simp [haccesses, hashPlan, Access.storesTo]
    · intro other _ hother
      have hne : wordAt out other.index ≠ wordAt out place.index :=
        fun heq => hother (slot_injective hblocks heq)
      simp [haccesses, hashPlan, Access.storesTo, hne]
    · simp
  · rw [hkept a, Finset.sum_eq_zero, add_zero]
    · intro place _
      simp [hashPlan, added]
    · intro place v hmem
      simp only [hashPlan, List.mem_singleton, Access.store.injEq] at hmem
      exact ha place.index place.index_lt hmem.1
  · have hnone : wrongChains rounds (copyToHost memory' out (blocks * threadsPerBlock)) = 0 := by
      rw [wrongChains_copyToHost, List.countP_eq_zero]
      intro i hi
      simpa using hslot i (List.mem_range.1 hi)
    simp [compareChains, hnone]

/-- A card with two blocks. -/
theorem hash_agrees_two :
    Terminates hashKernel (hashParams 4096 1000) 2 (fun _ w => w) (fun _ => 0) ∧
      (∀ labels memory',
        Launched hashKernel (hashParams 4096 1000) 2 (fun _ w => w) (fun _ => 0) labels memory' →
        (∀ i < 2 * threadsPerBlock, memory' (wordAt 4096 i) = hash (UInt32.ofNat i) 1000 ∧
          labels.countP (fun label => label.2.any (Access.storesTo (wordAt 4096 i))) = 1) ∧
        (∀ a, (∀ i < 2 * threadsPerBlock, a ≠ wordAt 4096 i) → memory' a = 0) ∧
        compareChains 1000 (copyToHost memory' 4096 (2 * threadsPerBlock)) = .ok ()) ∧
      ∀ memory' : UInt64 → UInt32,
        wrongChains 1000 (copyToHost memory' 4096 (2 * threadsPerBlock)) =
          (List.range (2 * threadsPerBlock)).countP fun i =>
            memory' (wordAt 4096 i) ≠ hash (UInt32.ofNat i) 1000 :=
  hash_agrees 2 (by decide) 4096 rfl 1000 (fun _ w => w) fun _ => 0

end Grid

end Ptx

end Roster
