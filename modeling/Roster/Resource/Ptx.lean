import Roster.Data.Places
import Roster.LTS.Threads
import Mathlib.Data.UInt
import Mathlib.Algebra.Group.Fin.Basic
import Mathlib.Data.Fintype.Prod

/-!
# Kernels in PTX

The instructions of the three kernels of the card test, as the PTX text has them: registers of 32
and 64 bits and predicates, labels and branches, and reads, writes and atomic additions of words.
A launch runs a kernel in every thread of a grid of blocks, in any interleaving (`launch`).

Straight code only computes registers; `runs_ops` runs through it at once.
-/

namespace Roster

namespace Ptx

open Threads

/-- The registers of a thread. -/
structure Registers where
  /-- `%p0`, `%p1`, … -/
  p : ℕ → Bool
  /-- `%r0`, `%r1`, … -/
  r : ℕ → UInt32
  /-- `%rd0`, `%rd1`, … -/
  rd : ℕ → UInt64

namespace Registers

variable (regs : Registers)

def setP (n : ℕ) (v : Bool) : Registers := { regs with p := Function.update regs.p n v }

def setR (n : ℕ) (v : UInt32) : Registers := { regs with r := Function.update regs.r n v }

def setRd (n : ℕ) (v : UInt64) : Registers := { regs with rd := Function.update regs.rd n v }

variable {n : ℕ} {b : Bool} {v : UInt32} {w : UInt64}

@[simp] theorem setP_p : (regs.setP n b).p = Function.update regs.p n b := rfl

@[simp] theorem setP_r : (regs.setP n b).r = regs.r := rfl

@[simp] theorem setP_rd : (regs.setP n b).rd = regs.rd := rfl

@[simp] theorem setR_p : (regs.setR n v).p = regs.p := rfl

@[simp] theorem setR_r : (regs.setR n v).r = Function.update regs.r n v := rfl

@[simp] theorem setR_rd : (regs.setR n v).rd = regs.rd := rfl

@[simp] theorem setRd_p : (regs.setRd n w).p = regs.p := rfl

@[simp] theorem setRd_r : (regs.setRd n w).r = regs.r := rfl

@[simp] theorem setRd_rd : (regs.setRd n w).rd = Function.update regs.rd n w := rfl

end Registers

/-- The labels of the three kernels. -/
inductive Label
  | hashLoop
  | hashDone
  | fillLoop
  | fillDone
  | checkLoop
  | checkNext
  | checkDone
  deriving DecidableEq

/-- Their parameters of 64 bits. -/
inductive Param64
  | hashOut
  | fillBuffer
  | fillWords
  | checkBuffer
  | checkWords
  | checkErrors
  deriving DecidableEq

/-- Their parameters of 32 bits. -/
inductive Param32
  | hashRounds
  | fillSeed
  | checkSeed
  deriving DecidableEq

/-- What is fixed for a thread: the kernel's parameters, and its place in the grid. -/
structure Context where
  param64 : Param64 → UInt64
  param32 : Param32 → UInt32
  /-- `%ctaid.x`, the block. -/
  ctaid : UInt32
  /-- `%ntid.x`, the threads of a block. -/
  ntid : UInt32
  /-- `%tid.x`, the thread in its block. -/
  tid : UInt32
  /-- `%nctaid.x`, the number of blocks. -/
  nctaid : UInt32

/-- A 32-bit operand. -/
inductive Operand
  | r (n : ℕ)
  | imm (v : UInt32)
  deriving DecidableEq

/-- Instructions that compute a register. -/
inductive Op
  | ldParam64 (d : ℕ) (name : Param64)
  | ldParam32 (d : ℕ) (name : Param32)
  | movCtaid (d : ℕ)
  | movNtid (d : ℕ)
  | movTid (d : ℕ)
  | movNctaid (d : ℕ)
  | mov32 (d : ℕ) (a : Operand)
  | madLo32 (d : ℕ) (a b c : Operand)
  | mulLo32 (d : ℕ) (a b : Operand)
  | xor32 (d : ℕ) (a b : Operand)
  | shr32 (d : ℕ) (a b : Operand)
  | add32 (d : ℕ) (a b : Operand)
  | setpGe32 (p : ℕ) (a b : Operand)
  | setpEq32 (p : ℕ) (a b : Operand)
  | setpGe64 (p a b : ℕ)
  /-- Global addresses are the same in generic form. -/
  | cvtaToGlobal (d a : ℕ)
  | mulWide32 (d : ℕ) (a b : Operand)
  | cvtU64U32 (d a : ℕ)
  | cvtU32U64 (d a : ℕ)
  | shl64 (d a n : ℕ)
  | add64 (d a b : ℕ)
  deriving DecidableEq

/-- An instruction, or a label between two. -/
inductive Instr
  | op (o : Op)
  | label (name : Label)
  | bra (target : Label)
  /-- `@%p bra target`. -/
  | braIf (p : ℕ) (target : Label)
  /-- `ld.global.u32 %r, [%rd]`. -/
  | ld (d a : ℕ)
  /-- `st.global.u32 [%rd], %r`. -/
  | st (a s : ℕ)
  /-- `atom.global.add.u32 %r, [%rd], v`. -/
  | atomAdd (d a : ℕ) (v : UInt32)
  | ret
  deriving DecidableEq

def Operand.eval (regs : Registers) : Operand → UInt32
  | .r n => regs.r n
  | .imm v => v

/-- `shr.u32` and `shl.b64` shift everything out from the width on. -/
def shiftRight32 (a b : UInt32) : UInt32 := if b < 32 then a >>> b else 0

def shiftLeft64 (a : UInt64) (n : ℕ) : UInt64 := if n < 64 then a <<< UInt64.ofNat n else 0

/-- The registers after an instruction. -/
def Op.eval (ctx : Context) (regs : Registers) : Op → Registers
  | .ldParam64 d name => regs.setRd d (ctx.param64 name)
  | .ldParam32 d name => regs.setR d (ctx.param32 name)
  | .movCtaid d => regs.setR d ctx.ctaid
  | .movNtid d => regs.setR d ctx.ntid
  | .movTid d => regs.setR d ctx.tid
  | .movNctaid d => regs.setR d ctx.nctaid
  | .mov32 d a => regs.setR d (a.eval regs)
  | .madLo32 d a b c => regs.setR d (a.eval regs * b.eval regs + c.eval regs)
  | .mulLo32 d a b => regs.setR d (a.eval regs * b.eval regs)
  | .xor32 d a b => regs.setR d (a.eval regs ^^^ b.eval regs)
  | .shr32 d a b => regs.setR d (shiftRight32 (a.eval regs) (b.eval regs))
  | .add32 d a b => regs.setR d (a.eval regs + b.eval regs)
  | .setpGe32 p a b => regs.setP p (b.eval regs ≤ a.eval regs)
  | .setpEq32 p a b => regs.setP p (a.eval regs = b.eval regs)
  | .setpGe64 p a b => regs.setP p (regs.rd b ≤ regs.rd a)
  | .cvtaToGlobal d a => regs.setRd d (regs.rd a)
  | .mulWide32 d a b => regs.setRd d ((a.eval regs).toUInt64 * (b.eval regs).toUInt64)
  | .cvtU64U32 d a => regs.setRd d (regs.r a).toUInt64
  | .cvtU32U64 d a => regs.setR d (regs.rd a).toUInt32
  | .shl64 d a n => regs.setRd d (shiftLeft64 (regs.rd a) n)
  | .add64 d a b => regs.setRd d (regs.rd a + regs.rd b)

/-- A thread of a kernel. -/
structure Thread where
  ctx : Context
  pc : ℕ
  regs : Registers

namespace Thread

/-- On to the next instruction. -/
def advance (t : Thread) (regs : Registers) : Thread := { t with pc := t.pc + 1, regs := regs }

/-- To a label. -/
def jump (code : List Instr) (t : Thread) (target : Label) : Next UInt64 UInt32 Thread :=
  match code.findIdx? (· = .label target) with
  | some pc => .silent { t with pc := pc }
  | none => .stuck

/-- What the thread does next; words lie at addresses that 4 divides. -/
def next (code : List Instr) (t : Thread) : Next UInt64 UInt32 Thread :=
  match code[t.pc]? with
  | none => .stuck
  | some (.op o) => .silent (t.advance (o.eval t.ctx t.regs))
  | some (.label _) => .silent (t.advance t.regs)
  | some (.bra target) => jump code t target
  | some (.braIf p target) =>
    if t.regs.p p then jump code t target else .silent (t.advance t.regs)
  | some (.ld d a) =>
    if t.regs.rd a % 4 = 0 then .load (t.regs.rd a) fun v => t.advance (t.regs.setR d v)
    else .stuck
  | some (.st a s) =>
    if t.regs.rd a % 4 = 0 then .store (t.regs.rd a) (t.regs.r s) (t.advance t.regs) else .stuck
  | some (.atomAdd d a v) =>
    if t.regs.rd a % 4 = 0 then .add (t.regs.rd a) v fun old => t.advance (t.regs.setR d old)
    else .stuck
  | some .ret => .done

end Thread

/-! ### Launches -/

/-- `THREADS`, the threads of a block. -/
def threadsPerBlock : ℕ := 256

/-- The threads of a grid: the block, and the thread in it. -/
abbrev Place (blocks : ℕ) := Fin blocks × Fin threadsPerBlock

/-- The number of a thread in the whole grid. -/
def Place.index {blocks : ℕ} (place : Place blocks) : ℕ :=
  place.1 * threadsPerBlock + place.2

/-- The parameters of a launch. -/
structure Params where
  param64 : Param64 → UInt64
  param32 : Param32 → UInt32

/-- What a thread of a launch knows. -/
def Params.context {blocks : ℕ} (params : Params) (place : Place blocks) : Context where
  param64 := params.param64
  param32 := params.param32
  ctaid := UInt32.ofNat place.1
  ntid := UInt32.ofNat threadsPerBlock
  tid := UInt32.ofNat place.2
  nctaid := UInt32.ofNat blocks

/-- The threads of a launch at the start of the kernel, with anything in their registers. -/
def Params.threads {blocks : ℕ} (params : Params) (regs : Place blocks → Registers)
    (place : Place blocks) : Thread :=
  ⟨params.context place, 0, regs place⟩

/-- What happens in a launch: any interleaving of the threads, until all are done. -/
def Launched (code : List Instr) (params : Params) (blocks : ℕ) (view : UInt64 → UInt32 → UInt32)
    (memory : UInt64 → UInt32) (labels : List (Place blocks × Option (Access UInt64 UInt32)))
    (memory' : UInt64 → UInt32) : Prop :=
  ∃ (regs : Place blocks → Registers) (s : State (Place blocks) UInt64 UInt32 Thread),
    (system (Thread.next code) view).Trace ⟨memory, params.threads regs⟩ labels s ∧
      Complete (Thread.next code) s ∧ s.memory = memory'

/-- No thread of the launch gets stuck, and all of them come to an end. -/
def Terminates (code : List Instr) (params : Params) (blocks : ℕ)
    (view : UInt64 → UInt32 → UInt32) (memory : UInt64 → UInt32) : Prop :=
  ∀ regs : Place blocks → Registers, ∃ bound, ∀ labels s,
    (system (Thread.next code) view).Trace ⟨memory, params.threads regs⟩ labels s →
      labels.length ≤ bound ∧ ∃ labels' s',
        (system (Thread.next code) view).Trace s labels' s' ∧ Complete (Thread.next code) s'

/-! ### Running code -/

section Code

variable {code : List Instr} {ctx : Context} {pc n : ℕ} {regs : Registers}
  {accesses : List (Access UInt64 UInt32)}

/-- The registers after straight code. -/
def evalOps (ctx : Context) (regs : Registers) (ops : List Op) : Registers :=
  ops.foldl (Op.eval ctx) regs

@[simp] theorem evalOps_nil (ctx : Context) (regs : Registers) : evalOps ctx regs [] = regs := rfl

@[simp] theorem evalOps_cons (ctx : Context) (regs : Registers) (o : Op) (ops : List Op) :
    evalOps ctx regs (o :: ops) = evalOps ctx (o.eval ctx regs) ops := rfl

/-- Straight code is run through at once. -/
theorem runs_ops (ops : List Op) (hcode : ops.map .op <+: code.drop pc)
    (h : Runs (Thread.next code) ⟨ctx, pc + ops.length, evalOps ctx regs ops⟩ n accesses) :
    Runs (Thread.next code) ⟨ctx, pc, regs⟩ (n + ops.length) accesses := by
  induction ops generalizing pc regs with
  | nil => exact h
  | cons o ops ih =>
    obtain ⟨hget, hrest⟩ := getElem?_of_prefix hcode
    have hnext : Thread.next code ⟨ctx, pc, regs⟩ = .silent ⟨ctx, pc + 1, o.eval ctx regs⟩ := by
      rw [Thread.next, hget]
      rfl
    rw [List.length_cons, ← Nat.add_assoc]
    refine .silent hnext (ih hrest ?_)
    rwa [Nat.add_assoc, Nat.add_comm 1]

theorem runs_label {name : Label} (hcode : code[pc]? = some (.label name))
    (h : Runs (Thread.next code) ⟨ctx, pc + 1, regs⟩ n accesses) :
    Runs (Thread.next code) ⟨ctx, pc, regs⟩ (n + 1) accesses :=
  .silent (by rw [Thread.next, hcode]; rfl) h

theorem runs_bra {target : Label} {pc' : ℕ} (hcode : code[pc]? = some (.bra target))
    (htarget : code.findIdx? (· = .label target) = some pc')
    (h : Runs (Thread.next code) ⟨ctx, pc', regs⟩ n accesses) :
    Runs (Thread.next code) ⟨ctx, pc, regs⟩ (n + 1) accesses :=
  .silent (by simp only [Thread.next, hcode, Thread.jump, htarget]) h

theorem runs_braIf_taken {p : ℕ} {target : Label} {pc' : ℕ}
    (hcode : code[pc]? = some (.braIf p target))
    (htarget : code.findIdx? (· = .label target) = some pc') (hp : regs.p p = true)
    (h : Runs (Thread.next code) ⟨ctx, pc', regs⟩ n accesses) :
    Runs (Thread.next code) ⟨ctx, pc, regs⟩ (n + 1) accesses :=
  .silent (by simp only [Thread.next, hcode, hp, if_true, Thread.jump, htarget]) h

theorem runs_braIf_skipped {p : ℕ} {target : Label} (hcode : code[pc]? = some (.braIf p target))
    (hp : regs.p p = false) (h : Runs (Thread.next code) ⟨ctx, pc + 1, regs⟩ n accesses) :
    Runs (Thread.next code) ⟨ctx, pc, regs⟩ (n + 1) accesses :=
  .silent (by simp only [Thread.next, hcode, hp]; rfl) h

theorem runs_ld {d a : ℕ} {addr : UInt64} {v : UInt32} (hcode : code[pc]? = some (.ld d a))
    (ha : regs.rd a = addr) (haligned : addr % 4 = 0)
    (h : Runs (Thread.next code) ⟨ctx, pc + 1, regs.setR d v⟩ n accesses) :
    Runs (Thread.next code) ⟨ctx, pc, regs⟩ (n + 1) (.load addr v :: accesses) :=
  .load (by simp only [Thread.next, hcode, ha, haligned, if_true]; rfl) h

theorem runs_st {a s : ℕ} {addr : UInt64} {v : UInt32} (hcode : code[pc]? = some (.st a s))
    (ha : regs.rd a = addr) (hs : regs.r s = v) (haligned : addr % 4 = 0)
    (h : Runs (Thread.next code) ⟨ctx, pc + 1, regs⟩ n accesses) :
    Runs (Thread.next code) ⟨ctx, pc, regs⟩ (n + 1) (.store addr v :: accesses) :=
  .store (by simp only [Thread.next, hcode, ha, hs, haligned, if_true]; rfl) h

theorem runs_atomAdd {d a : ℕ} {addr : UInt64} {v : UInt32}
    (hcode : code[pc]? = some (.atomAdd d a v)) (ha : regs.rd a = addr) (haligned : addr % 4 = 0)
    (h : ∀ old, Runs (Thread.next code) ⟨ctx, pc + 1, regs.setR d old⟩ n accesses) :
    Runs (Thread.next code) ⟨ctx, pc, regs⟩ (n + 1) (.add addr v :: accesses) :=
  .add (by simp only [Thread.next, hcode, ha, haligned, if_true]; rfl) h

theorem runs_ret (hcode : code[pc]? = some .ret) :
    Runs (Thread.next code) ⟨ctx, pc, regs⟩ 0 [] :=
  .done (by rw [Thread.next, hcode])

end Code

/-! ### Places and words -/

/-- The address of word `i` of a buffer. -/
def wordAt (buffer : UInt64) (i : ℕ) : UInt64 := buffer + UInt64.ofNat (4 * i)

/-- `cuMemcpyDtoH` of `count` words. -/
def copyToHost (memory : UInt64 → UInt32) (buffer : UInt64) (count : ℕ) : List UInt32 :=
  (List.range count).map fun i => memory (wordAt buffer i)

section Places

variable {blocks : ℕ}

theorem Place.index_lt (place : Place blocks) : place.index < blocks * threadsPerBlock := by
  have hblock : place.1.val + 1 ≤ blocks := place.1.isLt
  have hthread : place.2.val < threadsPerBlock := place.2.isLt
  calc place.index < (place.1.val + 1) * threadsPerBlock := by
        rw [Place.index, Nat.succ_mul]
        omega
    _ ≤ blocks * threadsPerBlock := Nat.mul_le_mul_right _ hblock

theorem Place.index_injective : Function.Injective (Place.index : Place blocks → ℕ) := by
  intro a b h
  have ha : a.2.val < threadsPerBlock := a.2.isLt
  have hb : b.2.val < threadsPerBlock := b.2.isLt
  unfold Place.index threadsPerBlock at *
  have h₁ : a.1.val = b.1.val := by omega
  have h₂ : a.2.val = b.2.val := by omega
  exact Prod.ext (Fin.ext h₁) (Fin.ext h₂)

/-- Every number below that of the threads is one thread's. -/
theorem Place.exists_index {i : ℕ} (h : i < blocks * threadsPerBlock) :
    ∃ place : Place blocks, place.index = i := by
  refine ⟨⟨⟨i / threadsPerBlock, ?_⟩, ⟨i % threadsPerBlock, ?_⟩⟩, ?_⟩
  · exact Nat.div_lt_of_lt_mul (by rwa [Nat.mul_comm])
  · exact Nat.mod_lt _ (by decide)
  · exact Nat.div_add_mod' i threadsPerBlock

/-- What the kernels compute as the number of their thread. -/
theorem index_eq (place : Place blocks) :
    UInt32.ofNat place.1 * UInt32.ofNat threadsPerBlock + UInt32.ofNat place.2 =
      UInt32.ofNat place.index := by
  simp [Place.index, UInt32.ofNat_add, UInt32.ofNat_mul]

/-- A number of a thread is the same in 64 bits. -/
theorem toUInt64_ofNat {index : ℕ} (h : index < 2 ^ 32) :
    (UInt32.ofNat index).toUInt64 = UInt64.ofNat index := by
  rw [← UInt64.toNat_inj, UInt32.toNat_toUInt64, UInt32.toNat_ofNat_of_lt' h,
    UInt64.toNat_ofNat_of_lt' (h.trans (by decide))]

variable {buffer : UInt64} {i j : ℕ}

theorem wordAt_toNat (buffer : UInt64) (i : ℕ) :
    (wordAt buffer i).toNat = (buffer.toNat + 4 * i) % 2 ^ 64 := by
  simp [wordAt, UInt64.toNat_add]

/-- Words of a buffer lie where 4 divides the address. -/
theorem wordAt_aligned (h : buffer % 4 = 0) (i : ℕ) : wordAt buffer i % 4 = 0 := by
  rw [← UInt64.toNat_inj] at h ⊢
  simp only [UInt64.toNat_mod, wordAt_toNat] at h ⊢
  have hfour : (4 : UInt64).toNat = 4 := rfl
  have hzero : (0 : UInt64).toNat = 0 := rfl
  rw [hfour, hzero] at h ⊢
  omega

theorem wordAt_injective (hi : i < 2 ^ 32) (hj : j < 2 ^ 32)
    (h : wordAt buffer i = wordAt buffer j) : i = j := by
  rw [← UInt64.toNat_inj, wordAt_toNat, wordAt_toNat] at h
  have hbuffer := buffer.toNat_lt
  omega

end Places

end Ptx

end Roster
