import Mathlib.Algebra.BigOperators.Ring.Finset
import Roster.Resource.Ptx

/-!
# The VRAM test

The `fill` kernel writes a pattern into a buffer and the `check` kernel counts the words that read
back differently, once with the pattern and once with its inverse.  A word may have bits that are
stuck: it is read with these forced, whatever was written (`Stuck.force`).

`vram_test_exact` : both kernels visit every word once, the counter is the exact number of wrong
reads, and it is 0 if and only if no word has a stuck bit.
-/

namespace Roster

namespace Ptx

open Threads

/-- The `fill` kernel. -/
def fillKernel : List Instr := [
  .op (.ldParam64 1 .fillBuffer),
  .op (.ldParam64 2 .fillWords),
  .op (.ldParam32 1 .fillSeed),
  .op (.cvtaToGlobal 1 1),
  .op (.movCtaid 2),
  .op (.movNtid 3),
  .op (.movTid 4),
  .op (.madLo32 5 (.r 2) (.r 3) (.r 4)),
  .op (.cvtU64U32 3 5),
  .op (.movNctaid 6),
  .op (.mulLo32 6 (.r 6) (.r 3)),
  .op (.cvtU64U32 4 6),
  .label .fillLoop,
  .op (.setpGe64 1 3 2),
  .braIf 1 .fillDone,
  .op (.cvtU32U64 7 3),
  .op (.mulLo32 7 (.r 7) (.imm 1664525)),
  .op (.xor32 7 (.r 7) (.r 1)),
  .op (.shl64 5 3 2),
  .op (.add64 6 1 5),
  .st 6 7,
  .op (.add64 3 3 4),
  .bra .fillLoop,
  .label .fillDone,
  .ret]

/-- The `check` kernel. -/
def checkKernel : List Instr := [
  .op (.ldParam64 1 .checkBuffer),
  .op (.ldParam64 2 .checkWords),
  .op (.ldParam32 1 .checkSeed),
  .op (.ldParam64 7 .checkErrors),
  .op (.cvtaToGlobal 1 1),
  .op (.cvtaToGlobal 7 7),
  .op (.movCtaid 2),
  .op (.movNtid 3),
  .op (.movTid 4),
  .op (.madLo32 5 (.r 2) (.r 3) (.r 4)),
  .op (.cvtU64U32 3 5),
  .op (.movNctaid 6),
  .op (.mulLo32 6 (.r 6) (.r 3)),
  .op (.cvtU64U32 4 6),
  .label .checkLoop,
  .op (.setpGe64 1 3 2),
  .braIf 1 .checkDone,
  .op (.cvtU32U64 7 3),
  .op (.mulLo32 7 (.r 7) (.imm 1664525)),
  .op (.xor32 7 (.r 7) (.r 1)),
  .op (.shl64 5 3 2),
  .op (.add64 6 1 5),
  .ld 8 6,
  .op (.setpEq32 2 (.r 8) (.r 7)),
  .braIf 2 .checkNext,
  .atomAdd 9 7 1,
  .label .checkNext,
  .op (.add64 3 3 4),
  .bra .checkLoop,
  .label .checkDone,
  .ret]

/-- `MAX_TEST_BYTES`. -/
def maxTestBytes : ℕ := 2 ^ 30

/-- The buffer under test and the counter, and how many words and blocks there are. -/
structure VramSetup where
  blocks : ℕ
  words : ℕ
  buffer : UInt64
  errors : UInt64

/-- What holds of them: the numbers fit, as `test` chooses them, and the driver gives addresses that
4 divides and a counter outside of the buffer. -/
structure VramSetup.Allocated (setup : VramSetup) : Prop where
  blocks : 0 < setup.blocks * threadsPerBlock ∧ setup.blocks * threadsPerBlock < 2 ^ 32
  words : setup.words ≤ maxTestBytes / 4
  buffer : setup.buffer % 4 = 0
  errors : setup.errors % 4 = 0
  apart : ∀ w < setup.words, setup.errors ≠ wordAt setup.buffer w

namespace VramSetup

variable (setup : VramSetup)

def fillParams (seed : UInt32) : Params where
  param64
    | .fillBuffer => setup.buffer
    | .fillWords => UInt64.ofNat setup.words
    | .hashOut | .checkBuffer | .checkWords | .checkErrors => 0
  param32 _ := seed

def checkParams (seed : UInt32) : Params where
  param64
    | .checkBuffer => setup.buffer
    | .checkWords => UInt64.ofNat setup.words
    | .checkErrors => setup.errors
    | .hashOut | .fillBuffer | .fillWords => 0
  param32 _ := seed

end VramSetup

/-- What is written into word `w`. -/
def pattern (seed : UInt32) (w : ℕ) : UInt32 := UInt32.ofNat w * 1664525 ^^^ seed

/-- The stuck bits of a word. -/
structure Stuck where
  zeros : UInt32
  ones : UInt32

/-- What is read where `value` was written. -/
def Stuck.force (stuck : Stuck) (value : UInt32) : UInt32 :=
  (value &&& ~~~stuck.zeros) ||| stuck.ones

/-- Reading memory where words of the buffer have stuck bits. -/
def VramSetup.view (setup : VramSetup) (faults : ℕ → Stuck) (a : UInt64) (value : UInt32) :
    UInt32 :=
  let w := (a - setup.buffer).toNat / 4
  if w < setup.words then (faults w).force value else value

/-! ### Which words a thread visits -/

/-- The words of a thread from `w` on. -/
def visits (words stride w : ℕ) : List ℕ :=
  if 0 < stride ∧ w < words then w :: visits words stride (w + stride) else []
termination_by words - w

section Visits

variable {words stride w v : ℕ}

/-- The loop of a thread: what holds past the last word, and before an iteration when it holds after
it, holds at every word. -/
theorem stride_induction (words : ℕ) {P : ℕ → Prop} (hstride : 0 < stride)
    (hend : ∀ w, words ≤ w → P w) (hstep : ∀ w < words, P (w + stride) → P w) (w : ℕ) : P w := by
  induction hn : words - w using Nat.strong_induction_on generalizing w with
  | _ n ih =>
    rcases Nat.lt_or_ge w words with hlt | hge
    · exact hstep w hlt (ih _ (by omega) _ rfl)
    · exact hend w hge

theorem visits_of_lt (hstride : 0 < stride) (h : w < words) :
    visits words stride w = w :: visits words stride (w + stride) := by
  rw [visits, if_pos ⟨hstride, h⟩]

theorem visits_of_le (h : words ≤ w) : visits words stride w = [] := by
  rw [visits, if_neg fun hlt => absurd hlt.2 (Nat.not_lt.2 h)]

theorem mem_visits (hstride : 0 < stride) :
    v ∈ visits words stride w ↔ w ≤ v ∧ v < words ∧ stride ∣ v - w := by
  induction w using stride_induction words hstride with
  | hend w hle =>
    rw [visits_of_le hle]
    refine iff_of_false (List.not_mem_nil) ?_
    rintro ⟨hle, hlt, -⟩
    omega
  | hstep w h ih =>
    rw [visits_of_lt hstride h, List.mem_cons, ih]
    constructor
    · rintro (rfl | ⟨hle, hlt, hdvd⟩)
      · exact ⟨le_rfl, h, by simp⟩
      · refine ⟨by omega, hlt, ?_⟩
        have hsub : v - w = v - (w + stride) + stride := by omega
        rw [hsub]
        exact dvd_add hdvd (dvd_refl stride)
    · rintro ⟨hle, hlt, hdvd⟩
      rcases hle.eq_or_lt with rfl | hlt'
      · exact .inl rfl
      · have hstep := Nat.le_of_dvd (by omega) hdvd
        refine .inr ⟨by omega, hlt, ?_⟩
        have hsub : v - (w + stride) = v - w - stride := by omega
        rw [hsub]
        exact Nat.dvd_sub hdvd (dvd_refl stride)

theorem nodup_visits (hstride : 0 < stride) (words w : ℕ) : (visits words stride w).Nodup := by
  induction w using stride_induction words hstride with
  | hend w hle =>
    rw [visits_of_le hle]
    exact List.nodup_nil
  | hstep w h ih =>
    rw [visits_of_lt hstride h, List.nodup_cons, mem_visits hstride]
    exact ⟨fun hmem => by omega, ih⟩

/-- A thread visits the words whose number is its own, up to the number of threads. -/
theorem mem_visits_mod (hw : w < stride) :
    v ∈ visits words stride w ↔ v < words ∧ v % stride = w := by
  have hstride : 0 < stride := by omega
  rw [mem_visits hstride]
  constructor
  · rintro ⟨hle, hlt, k, hk⟩
    have hv : v = w + stride * k := by omega
    exact ⟨hlt, by rw [hv, Nat.add_mul_mod_self_left, Nat.mod_eq_of_lt hw]⟩
  · rintro ⟨hlt, rfl⟩
    refine ⟨Nat.mod_le v stride, hlt, v / stride, ?_⟩
    have hdiv := Nat.mod_add_div v stride
    omega

/-- Together the threads visit every word once. -/
theorem sum_visits {M : Type} [AddCommMonoid M] {blocks : ℕ} (words : ℕ)
    (hblocks : 0 < blocks * threadsPerBlock) (f : ℕ → M) :
    ∑ place : Place blocks,
        ((visits words (blocks * threadsPerBlock) place.index).map f).sum =
      ∑ w ∈ Finset.range words, f w := by
  have hthread : ∀ place : Place blocks,
      ((visits words (blocks * threadsPerBlock) place.index).map f).sum =
        ∑ w ∈ Finset.range words,
          if w % (blocks * threadsPerBlock) = place.index then f w else 0 := by
    intro place
    rw [← List.sum_toFinset f (nodup_visits hblocks _ _), ← Finset.sum_filter]
    congr 1
    ext w
    rw [List.mem_toFinset, mem_visits_mod place.index_lt, Finset.mem_filter, Finset.mem_range]
  simp only [hthread]
  rw [Finset.sum_comm]
  refine Finset.sum_congr rfl fun w _ => ?_
  obtain ⟨place, hplace⟩ := Place.exists_index (Nat.mod_lt w hblocks)
  rw [Finset.sum_eq_single place, if_pos hplace.symm]
  · intro other _ hother
    exact if_neg fun heq => hother (Place.index_injective (heq.symm.trans hplace.symm))
  · simp

end Visits

/-! ### A thread of the kernels -/

section Thread

variable {setup : VramSetup} {seed : UInt32} {w : ℕ} {regs : Registers}

/-- `%rd3` of a thread never comes near 64 bits. -/
theorem ofNat_le_ofNat {a b : ℕ} (ha : a < 2 ^ 64) (hb : b < 2 ^ 64) :
    UInt64.ofNat a ≤ UInt64.ofNat b ↔ a ≤ b := by
  rw [UInt64.le_iff_toNat_le, UInt64.toNat_ofNat_of_lt' ha, UInt64.toNat_ofNat_of_lt' hb]

theorem shiftLeft64_two (w : ℕ) : shiftLeft64 (UInt64.ofNat w) 2 = UInt64.ofNat (4 * w) := by
  rw [shiftLeft64, if_pos (by decide), ← UInt64.toNat_inj, UInt64.toNat_shiftLeft,
    UInt64.toNat_ofNat', UInt64.toNat_ofNat', UInt64.toNat_ofNat', Nat.shiftLeft_eq]
  have htwo : 2 % 2 ^ 64 % 64 = 2 := by decide
  rw [htwo]
  omega

/-- The number of threads, multiplied in 32 bits. -/
theorem stride_eq {blocks : ℕ} (h : blocks * threadsPerBlock < 2 ^ 32) :
    (UInt32.ofNat blocks * UInt32.ofNat threadsPerBlock).toUInt64 =
      UInt64.ofNat blocks * UInt64.ofNat threadsPerBlock := by
  rw [← UInt32.ofNat_mul, toUInt64_ofNat h, UInt64.ofNat_mul]

/-- The registers at the head of the loop of `fill`. -/
structure FillAt (setup : VramSetup) (seed : UInt32) (w : ℕ) (regs : Registers) : Prop where
  buffer : regs.rd 1 = setup.buffer
  words : regs.rd 2 = UInt64.ofNat setup.words
  seed : regs.r 1 = seed
  w : regs.rd 3 = UInt64.ofNat w
  stride : regs.rd 4 = UInt64.ofNat (setup.blocks * threadsPerBlock)

/-- The test at the head of both loops. -/
theorem words_le_ofNat (hsetup : setup.Allocated) (hw : w < 2 ^ 33) :
    UInt64.ofNat setup.words ≤ UInt64.ofNat w ↔ setup.words ≤ w := by
  have hwords : setup.words ≤ 2 ^ 28 := hsetup.words
  exact ofNat_le_ofNat (by omega) (by omega)

/-- The loop of `fill` from word `w` on. -/
theorem fill_loop (hsetup : setup.Allocated) (seed : UInt32) (ctx : Context) (hw : w < 2 ^ 33) :
    ∃ n, ∀ regs, FillAt setup seed w regs → Runs (Thread.next fillKernel) ⟨ctx, 12, regs⟩ n
      ((visits setup.words (setup.blocks * threadsPerBlock) w).map fun w =>
        .store (wordAt setup.buffer w) (pattern seed w)) := by
  have hwords : setup.words ≤ 2 ^ 28 := hsetup.words
  obtain ⟨hpos, hstride⟩ := hsetup.blocks
  induction w using stride_induction setup.words hpos with
  | hend w hle =>
    rw [visits_of_le hle, List.map_nil]
    refine ⟨_, fun regs hat => runs_label rfl (runs_ops [.setpGe64 1 3 2] ⟨_, rfl⟩
      (runs_braIf_taken rfl rfl ?_ (runs_label rfl (runs_ret rfl))))⟩
    simp [Op.eval, hat.words, hat.w, words_le_ofNat hsetup hw, hle]
  | hstep w h ih =>
    obtain ⟨n, hn⟩ := ih (by omega)
    rw [visits_of_lt hpos h, List.map_cons]
    refine ⟨_, fun regs hat => runs_label rfl (runs_ops [.setpGe64 1 3 2] ⟨_, rfl⟩
      (runs_braIf_skipped rfl ?_ (runs_ops [.cvtU32U64 7 3, .mulLo32 7 (.r 7) (.imm 1664525),
        .xor32 7 (.r 7) (.r 1), .shl64 5 3 2, .add64 6 1 5] ⟨_, rfl⟩ (runs_st rfl ?_ ?_
          (wordAt_aligned hsetup.buffer w) (runs_ops [.add64 3 3 4] ⟨_, rfl⟩
            (runs_bra rfl rfl (hn _ ?_)))))))⟩
    · simp [Op.eval, hat.words, hat.w, words_le_ofNat hsetup hw, h]
    · simp [Op.eval, hat.buffer, hat.w, shiftLeft64_two, wordAt]
    · simp [Op.eval, Operand.eval, hat.w, hat.seed, pattern]
    · constructor <;> simp [Op.eval, hat.buffer, hat.words, hat.seed, hat.w, hat.stride]

/-- A thread of `fill` writes the pattern into its words. -/
theorem fill_thread (hsetup : setup.Allocated) (seed : UInt32) (place : Place setup.blocks)
    (regs : Registers) :
    ∃ n, Runs (Thread.next fillKernel) ⟨(setup.fillParams seed).context place, 0, regs⟩ n
      ((visits setup.words (setup.blocks * threadsPerBlock) place.index).map fun w =>
        .store (wordAt setup.buffer w) (pattern seed w)) := by
  obtain ⟨hpos, hstride⟩ := hsetup.blocks
  have hindex := place.index_lt
  obtain ⟨n, hn⟩ := fill_loop hsetup seed ((setup.fillParams seed).context place)
    (by omega : place.index < 2 ^ 33)
  refine ⟨_, runs_ops [.ldParam64 1 .fillBuffer, .ldParam64 2 .fillWords, .ldParam32 1 .fillSeed,
    .cvtaToGlobal 1 1, .movCtaid 2, .movNtid 3, .movTid 4, .madLo32 5 (.r 2) (.r 3) (.r 4),
    .cvtU64U32 3 5, .movNctaid 6, .mulLo32 6 (.r 6) (.r 3), .cvtU64U32 4 6] ⟨_, rfl⟩ (hn _ ?_)⟩
  constructor <;> simp [Op.eval, Operand.eval, VramSetup.fillParams, Params.context, index_eq,
    stride_eq hstride, toUInt64_ofNat (hindex.trans hstride)]

/-- The registers at the head of the loop of `check`. -/
structure CheckAt (setup : VramSetup) (seed : UInt32) (w : ℕ) (regs : Registers) : Prop
    extends FillAt setup seed w regs where
  errors : regs.rd 7 = setup.errors

/-- What `check` does at a word where it reads `value`. -/
def checkWord (setup : VramSetup) (seed value : UInt32) (w : ℕ) : List (Access UInt64 UInt32) :=
  .load (wordAt setup.buffer w) value ::
    if value = pattern seed w then [] else [.add setup.errors 1]

/-- What `check` does with the `value` it has read, and what comes after it. -/
theorem check_compare (hsetup : setup.Allocated) (seed value : UInt32) (ctx : Context) {n : ℕ}
    {accesses : List (Access UInt64 UInt32)}
    (hn : ∀ regs, CheckAt setup seed (w + setup.blocks * threadsPerBlock) regs →
      Runs (Thread.next checkKernel) ⟨ctx, 14, regs⟩ n accesses) :
    ∃ n, ∀ regs, CheckAt setup seed w regs → regs.r 7 = pattern seed w → regs.r 8 = value →
      Runs (Thread.next checkKernel) ⟨ctx, 23, regs⟩ n
        ((if value = pattern seed w then [] else [.add setup.errors 1]) ++ accesses) := by
  by_cases hvalue : value = pattern seed w
  -- the word is right: the branch to `checkNext`
  · rw [if_pos hvalue]
    refine ⟨_, fun regs hat hpattern hread => runs_ops [.setpEq32 2 (.r 8) (.r 7)] ⟨_, rfl⟩
      (runs_braIf_taken rfl rfl ?_ (runs_label rfl (runs_ops [.add64 3 3 4] ⟨_, rfl⟩
        (runs_bra rfl rfl (hn _ ?_)))))⟩
    · simp [Op.eval, Operand.eval, hpattern, hread, hvalue]
    · refine ⟨?_, ?_⟩
      · constructor <;> simp [Op.eval, hat.buffer, hat.words, hat.seed, hat.w, hat.stride]
      · simp [Op.eval, hat.errors]
  -- the word is wrong: it is counted, and what the counter held goes to a register nobody reads
  · rw [if_neg hvalue]
    refine ⟨_, fun regs hat hpattern hread => runs_ops [.setpEq32 2 (.r 8) (.r 7)] ⟨_, rfl⟩
      (runs_braIf_skipped rfl ?_ (runs_atomAdd rfl ?_ hsetup.errors fun old =>
        (runs_label rfl (runs_ops [.add64 3 3 4] ⟨_, rfl⟩ (runs_bra rfl rfl (hn _ ?_))))))⟩
    · simp [Op.eval, Operand.eval, hpattern, hread, hvalue]
    · simp [Op.eval, hat.errors]
    · refine ⟨?_, ?_⟩
      · constructor <;> simp [Op.eval, hat.buffer, hat.words, hat.seed, hat.w, hat.stride]
      · simp [Op.eval, hat.errors]

/-- The loop of `check` from word `w` on, with `value w` in word `w`. -/
theorem check_loop (hsetup : setup.Allocated) (seed : UInt32) (value : ℕ → UInt32) (ctx : Context)
    (hw : w < 2 ^ 33) :
    ∃ n, ∀ regs, CheckAt setup seed w regs → Runs (Thread.next checkKernel) ⟨ctx, 14, regs⟩ n
      ((visits setup.words (setup.blocks * threadsPerBlock) w).flatMap fun w =>
        checkWord setup seed (value w) w) := by
  have hwords : setup.words ≤ 2 ^ 28 := hsetup.words
  obtain ⟨hpos, hstride⟩ := hsetup.blocks
  induction w using stride_induction setup.words hpos with
  | hend w hle =>
    rw [visits_of_le hle, List.flatMap_nil]
    refine ⟨_, fun regs hat => runs_label rfl (runs_ops [.setpGe64 1 3 2] ⟨_, rfl⟩
      (runs_braIf_taken rfl rfl ?_ (runs_label rfl (runs_ret rfl))))⟩
    simp [Op.eval, hat.words, hat.w, words_le_ofNat hsetup hw, hle]
  | hstep w h ih =>
    obtain ⟨n, hn⟩ := ih (by omega)
    obtain ⟨n, hn⟩ := check_compare hsetup seed (value w) ctx hn
    rw [visits_of_lt hpos h, List.flatMap_cons, checkWord, List.cons_append]
    refine ⟨_, fun regs hat => runs_label rfl (runs_ops [.setpGe64 1 3 2] ⟨_, rfl⟩
      (runs_braIf_skipped rfl ?_ (runs_ops [.cvtU32U64 7 3, .mulLo32 7 (.r 7) (.imm 1664525),
        .xor32 7 (.r 7) (.r 1), .shl64 5 3 2, .add64 6 1 5] ⟨_, rfl⟩ (runs_ld rfl ?_
          (wordAt_aligned hsetup.buffer w) (hn _ ?_ ?_ ?_)))))⟩
    · simp [Op.eval, hat.words, hat.w, words_le_ofNat hsetup hw, h]
    · simp [Op.eval, hat.buffer, hat.w, shiftLeft64_two, wordAt]
    · refine ⟨?_, ?_⟩
      · constructor <;> simp [Op.eval, hat.buffer, hat.words, hat.seed, hat.w, hat.stride]
      · simp [Op.eval, hat.errors]
    · simp [Op.eval, Operand.eval, hat.w, hat.seed, pattern]
    · simp

/-- A thread of `check` reads its words and counts those that differ from the pattern. -/
theorem check_thread (hsetup : setup.Allocated) (seed : UInt32) (value : ℕ → UInt32)
    (place : Place setup.blocks) (regs : Registers) :
    ∃ n, Runs (Thread.next checkKernel) ⟨(setup.checkParams seed).context place, 0, regs⟩ n
      ((visits setup.words (setup.blocks * threadsPerBlock) place.index).flatMap fun w =>
        checkWord setup seed (value w) w) := by
  obtain ⟨hpos, hstride⟩ := hsetup.blocks
  have hindex := place.index_lt
  obtain ⟨n, hn⟩ := check_loop hsetup seed value ((setup.checkParams seed).context place)
    (by omega : place.index < 2 ^ 33)
  refine ⟨_, runs_ops [.ldParam64 1 .checkBuffer, .ldParam64 2 .checkWords,
    .ldParam32 1 .checkSeed, .ldParam64 7 .checkErrors, .cvtaToGlobal 1 1, .cvtaToGlobal 7 7,
    .movCtaid 2, .movNtid 3, .movTid 4, .madLo32 5 (.r 2) (.r 3) (.r 4), .cvtU64U32 3 5,
    .movNctaid 6, .mulLo32 6 (.r 6) (.r 3), .cvtU64U32 4 6] ⟨_, rfl⟩ (hn _ ?_)⟩
  refine ⟨?_, ?_⟩
  · constructor <;> simp [Op.eval, Operand.eval, VramSetup.checkParams, Params.context, index_eq,
      stride_eq hstride, toUInt64_ofNat (hindex.trans hstride)]
  · simp [Op.eval, VramSetup.checkParams, Params.context]

end Thread

/-! ### The whole grid -/

section Grid

variable {setup : VramSetup} {faults : ℕ → Stuck} {seed : UInt32} {w : ℕ}
  {memory memory' : UInt64 → UInt32}
  {labels : List (Place setup.blocks × Option (Access UInt64 UInt32))}

def fillPlan (setup : VramSetup) (seed : UInt32) (place : Place setup.blocks) :
    List (Access UInt64 UInt32) :=
  (visits setup.words (setup.blocks * threadsPerBlock) place.index).map fun w =>
    .store (wordAt setup.buffer w) (pattern seed w)

def checkPlan (setup : VramSetup) (seed : UInt32) (value : ℕ → UInt32)
    (place : Place setup.blocks) : List (Access UInt64 UInt32) :=
  (visits setup.words (setup.blocks * threadsPerBlock) place.index).flatMap fun w =>
    checkWord setup seed (value w) w

/-- Reading a word of the buffer forces its stuck bits. -/
theorem view_word (faults : ℕ → Stuck) (hsetup : setup.Allocated) (hw : w < setup.words)
    (value : UInt32) :
    setup.view faults (wordAt setup.buffer w) value = (faults w).force value := by
  have hwords : setup.words ≤ 2 ^ 28 := hsetup.words
  have hsize : UInt64.size = 2 ^ 64 := rfl
  have hoffset : (wordAt setup.buffer w - setup.buffer).toNat / 4 = w := by
    rw [wordAt, add_sub_cancel_left, UInt64.toNat_ofNat_of_lt' (by omega)]
    omega
  rw [VramSetup.view, hoffset, if_pos hw]

/-- The counter is not part of the buffer. -/
theorem view_errors (faults : ℕ → Stuck) (hsetup : setup.Allocated) (value : UInt32) :
    setup.view faults setup.errors value = value := by
  rw [VramSetup.view, if_neg]
  intro hlt
  refine hsetup.apart _ hlt ?_
  have hbuffer := congrArg UInt64.toNat hsetup.buffer
  have herrors := congrArg UInt64.toNat hsetup.errors
  rw [UInt64.toNat_mod] at hbuffer herrors
  have hfour : (4 : UInt64).toNat = 4 := rfl
  have hzero : (0 : UInt64).toNat = 0 := rfl
  rw [hfour, hzero] at hbuffer herrors
  have hb := setup.buffer.toNat_lt
  have he := setup.errors.toNat_lt
  rw [← UInt64.toNat_inj, wordAt_toNat, UInt64.toNat_sub]
  omega

theorem word_injective (hsetup : setup.Allocated) {v : ℕ} (hv : v < setup.words)
    (hw : w < setup.words) (h : wordAt setup.buffer v = wordAt setup.buffer w) : v = w := by
  have hwords : setup.words ≤ 2 ^ 28 := hsetup.words
  exact wordAt_injective (by omega) (by omega) h

theorem visits_lt (hsetup : setup.Allocated) {place : Place setup.blocks}
    (h : w ∈ visits setup.words (setup.blocks * threadsPerBlock) place.index) :
    w < setup.words :=
  ((mem_visits hsetup.blocks.1).1 h).2.1

theorem fill_planned (hsetup : setup.Allocated) (seed : UInt32)
    (view : UInt64 → UInt32 → UInt32) (memory : UInt64 → UInt32)
    (regs : Place setup.blocks → Registers) : Planned (Thread.next fillKernel) view memory
      ((setup.fillParams seed).threads regs) (fillPlan setup seed) where
  runs place := fill_thread hsetup seed place (regs place)
  compatible := by
    refine ⟨?_, fun i j a v v' hv hv' => ?_, ?_, ?_⟩
    · simp [fillPlan]
    · obtain ⟨w, hw, heq⟩ := List.mem_map.1 hv
      obtain ⟨w', hw', heq'⟩ := List.mem_map.1 hv'
      obtain ⟨ha, rfl⟩ := Access.store.inj heq
      obtain ⟨ha', rfl⟩ := Access.store.inj heq'
      rw [word_injective hsetup (visits_lt hsetup hw) (visits_lt hsetup hw') (ha.trans ha'.symm)]
    · simp [fillPlan]
    · simp [fillPlan]

theorem mem_checkPlan {value : ℕ → UInt32} {place : Place setup.blocks}
    {access : Access UInt64 UInt32} (h : access ∈ checkPlan setup seed value place) :
    (∃ w ∈ visits setup.words (setup.blocks * threadsPerBlock) place.index,
      access = .load (wordAt setup.buffer w) (value w)) ∨ access = .add setup.errors 1 := by
  obtain ⟨w, hw, hmem⟩ := List.mem_flatMap.1 h
  rw [checkWord] at hmem
  rcases List.mem_cons.1 hmem with rfl | hmem
  · exact .inl ⟨w, hw, rfl⟩
  · split at hmem
    · cases hmem
    · exact .inr (List.mem_singleton.1 hmem)

/-- What is read of word `w`. -/
def VramSetup.value (setup : VramSetup) (faults : ℕ → Stuck) (memory : UInt64 → UInt32) (w : ℕ) :
    UInt32 :=
  setup.view faults (wordAt setup.buffer w) (memory (wordAt setup.buffer w))

theorem check_planned (hsetup : setup.Allocated) (faults : ℕ → Stuck) (seed : UInt32)
    (memory : UInt64 → UInt32) (regs : Place setup.blocks → Registers) :
    Planned (Thread.next checkKernel) (setup.view faults) memory
      ((setup.checkParams seed).threads regs)
      (checkPlan setup seed (setup.value faults memory)) where
  runs place := check_thread hsetup seed _ place (regs place)
  compatible := by
    have hnoStore : ∀ i a v, .store a v ∉ checkPlan setup seed (setup.value faults memory) i := by
      intro i a v hmem
      rcases mem_checkPlan hmem with ⟨w, -, heq⟩ | heq <;> cases heq
    refine ⟨fun i a v hmem => ?_, fun i j a v v' hv => absurd hv (hnoStore i a v),
      fun i j a v v' hv => absurd hv (hnoStore i a v), fun i a v hmem value => ?_⟩
    · rcases mem_checkPlan hmem with ⟨w, hw, heq⟩ | heq
      · obtain ⟨rfl, rfl⟩ := Access.load.inj heq
        refine ⟨rfl, fun j v => hnoStore j _ v, fun j v hadd => ?_⟩
        rcases mem_checkPlan hadd with ⟨w', -, heq'⟩ | heq'
        · cases heq'
        · exact hsetup.apart w (visits_lt hsetup hw) (Access.add.inj heq').1.symm
      · cases heq
    · rcases mem_checkPlan hmem with ⟨w, hw, heq⟩ | heq
      · cases heq
      · obtain ⟨rfl, -⟩ := Access.add.inj heq
        exact view_errors faults hsetup value

/-! ### A pass -/

theorem added_flatMap {A V : Type} [DecidableEq A] [AddCommMonoid V] (a : A) (l : List ℕ)
    (f : ℕ → List (Access A V)) :
    added a (l.flatMap f) = (l.map fun w => added a (f w)).sum := by
  induction l with
  | nil => rfl
  | cons w l ih => rw [List.flatMap_cons, added_append, ih, List.map_cons, List.sum_cons]

/-- Ones add up to how many there are. -/
theorem sum_ones (n : ℕ) (p : ℕ → Bool) :
    ∑ w ∈ Finset.range n, (if p w then 1 else 0 : UInt32) =
      UInt32.ofNat ((List.range n).countP p) := by
  induction n with
  | zero => rfl
  | succ n ih =>
    rw [Finset.sum_range_succ, ih, List.range_succ, List.countP_append, UInt32.ofNat_add]
    congr 1
    cases h : p n <;> simp [h]

/-- An access that is made at word `w` only is made once. -/
theorem countP_word (hsetup : setup.Allocated) (hw : w < setup.words)
    {f : ℕ → List (Access UInt64 UInt32)} {p : Access UInt64 UInt32 → Bool}
    (haccesses : ∀ place : Place setup.blocks, accessesOf place labels =
      (visits setup.words (setup.blocks * threadsPerBlock) place.index).flatMap f)
    (hone : ∀ v < setup.words, (f v).countP p = if v = w then 1 else 0) :
    labels.countP (fun label => label.2.any p) = 1 := by
  have hthread : ∀ place : Place setup.blocks, (accessesOf place labels).countP p =
      ((visits setup.words (setup.blocks * threadsPerBlock) place.index).map fun v =>
        if v = w then 1 else 0).sum := by
    intro place
    rw [haccesses, List.countP_flatMap]
    exact congrArg List.sum (List.map_congr_left fun v hv => hone v (visits_lt hsetup hv))
  rw [countP_labels, Finset.sum_congr rfl fun place _ => hthread place,
    sum_visits setup.words hsetup.blocks.1]
  simp [hw]

/-- The words that read back differently from the pattern. -/
def mismatches (setup : VramSetup) (faults : ℕ → Stuck) (seed : UInt32) : ℕ :=
  (List.range setup.words).countP fun w => (faults w).force (pattern seed w) ≠ pattern seed w

/-- `fill` writes the pattern, into every word once. -/
theorem fill_launched (hsetup : setup.Allocated) {view : UInt64 → UInt32 → UInt32}
    (h : Launched fillKernel (setup.fillParams seed) setup.blocks view memory labels memory') :
    (∀ w < setup.words, memory' (wordAt setup.buffer w) = pattern seed w ∧
      labels.countP (fun label => label.2.any (Access.storesTo (wordAt setup.buffer w))) = 1) ∧
    memory' setup.errors = memory setup.errors := by
  obtain ⟨regs, s, htrace, hdone, rfl⟩ := h
  obtain ⟨haccesses, hstored, hkept⟩ :=
    (fill_planned hsetup seed view memory regs).complete htrace hdone
  refine ⟨fun w hw => ⟨?_, ?_⟩, ?_⟩
  · obtain ⟨place, hplace⟩ := Place.exists_index (Nat.mod_lt w hsetup.blocks.1)
    refine hstored place _ _ (List.mem_map_of_mem ?_)
    exact (mem_visits_mod place.index_lt).2 ⟨hw, hplace.symm⟩
  · have hplan : ∀ place, accessesOf place labels =
        (visits setup.words (setup.blocks * threadsPerBlock) place.index).flatMap fun w =>
          [.store (wordAt setup.buffer w) (pattern seed w)] :=
      fun place => (haccesses place).trans List.map_eq_flatMap
    refine countP_word hsetup hw hplan fun v hv => ?_
    have hiff : wordAt setup.buffer v = wordAt setup.buffer w ↔ v = w :=
      ⟨word_injective hsetup hv hw, fun heq => heq ▸ rfl⟩
    simp [List.countP_cons, Access.storesTo, hiff]
  · rw [hkept, Finset.sum_eq_zero, add_zero]
    · intro place _
      refine added_eq_zero fun v hmem => ?_
      simp [fillPlan] at hmem
    · intro place v hmem
      obtain ⟨w, hw, heq⟩ := List.mem_map.1 hmem
      exact hsetup.apart w (visits_lt hsetup hw) (Access.store.inj heq).1.symm

/-- `check` reads every word once, and counts those that differ from the pattern. -/
theorem check_launched (hsetup : setup.Allocated)
    (hfilled : ∀ w < setup.words, memory (wordAt setup.buffer w) = pattern seed w)
    (h : Launched checkKernel (setup.checkParams seed) setup.blocks (setup.view faults) memory
      labels memory') :
    (∀ w < setup.words,
      labels.countP (fun label => label.2.any (Access.loadsFrom (wordAt setup.buffer w))) = 1) ∧
    memory' setup.errors =
      memory setup.errors + UInt32.ofNat (mismatches setup faults seed) := by
  obtain ⟨regs, s, htrace, hdone, rfl⟩ := h
  obtain ⟨haccesses, -, hkept⟩ :=
    (check_planned hsetup faults seed memory regs).complete htrace hdone
  refine ⟨fun w hw => countP_word hsetup hw haccesses fun v hv => ?_, ?_⟩
  · have hiff : wordAt setup.buffer v = wordAt setup.buffer w ↔ v = w :=
      ⟨word_injective hsetup hv hw, fun heq => heq ▸ rfl⟩
    rw [checkWord]
    split <;> simp [List.countP_cons, Access.loadsFrom, hiff]
  · have hadded : ∀ place : Place setup.blocks,
        added setup.errors (checkPlan setup seed (setup.value faults memory) place) =
          ((visits setup.words (setup.blocks * threadsPerBlock) place.index).map fun w =>
            if (faults w).force (pattern seed w) ≠ pattern seed w then 1 else 0).sum := by
      intro place
      rw [checkPlan, added_flatMap]
      refine congrArg List.sum (List.map_congr_left fun w hmem => ?_)
      have hw := visits_lt hsetup hmem
      rw [VramSetup.value, view_word faults hsetup hw, hfilled w hw, checkWord]
      by_cases heq : (faults w).force (pattern seed w) = pattern seed w <;> simp [added, heq]
    rw [hkept, Finset.sum_congr rfl fun place _ => hadded place,
      sum_visits setup.words hsetup.blocks.1, mismatches, ← sum_ones]
    · simp
    · intro place v hmem
      rcases mem_checkPlan hmem with ⟨w, -, heq⟩ | heq <;> cases heq

end Grid

/-! ### The test -/

section Test

variable {setup : VramSetup} {faults : ℕ → Stuck}

/-- The seeds of the pattern and its inverse. -/
def testSeeds : List UInt32 := [0, 0xFFFFFFFF]

/-- The launches of a pass, by what their threads do. -/
abbrev PassLabels (setup : VramSetup) :=
  List (Place setup.blocks × Option (Access UInt64 UInt32)) ×
    List (Place setup.blocks × Option (Access UInt64 UInt32))

/-- The loop of `test` over the seeds: `fill`, then `check`. -/
inductive Passes (setup : VramSetup) (faults : ℕ → Stuck) :
    List UInt32 → (UInt64 → UInt32) → List (PassLabels setup) → (UInt64 → UInt32) → Prop
  | nil (memory : UInt64 → UInt32) : Passes setup faults [] memory [] memory
  | cons {seed : UInt32} {seeds : List UInt32} {memory filled checked memory' : UInt64 → UInt32}
      {pass : PassLabels setup} {passes : List (PassLabels setup)}
      (hfill : Launched fillKernel (setup.fillParams seed) setup.blocks (setup.view faults) memory
        pass.1 filled)
      (hcheck : Launched checkKernel (setup.checkParams seed) setup.blocks (setup.view faults)
        filled pass.2 checked)
      (hrest : Passes setup faults seeds checked passes memory') :
      Passes setup faults (seed :: seeds) memory (pass :: passes) memory'

/-- `cuMemsetD32(errors, 0, 1)`. -/
def clearErrors (setup : VramSetup) (memory : UInt64 → UInt32) : UInt64 → UInt32 :=
  Function.update memory setup.errors 0

/-- What `test` makes of the counter. -/
def vramResult (setup : VramSetup) (memory : UInt64 → UInt32) : Except String Unit :=
  let mismatches := memory setup.errors
  if 0 < mismatches then
    .error s!"{mismatches} of {setup.words * 2} VRAM words read back wrong"
  else .ok ()

/-- Every pass visits every word once in each kernel, and the counter adds up. -/
theorem Passes.spec (hsetup : setup.Allocated) {seeds : List UInt32}
    {memory memory' : UInt64 → UInt32} {passes : List (PassLabels setup)}
    (h : Passes setup faults seeds memory passes memory') :
    (∀ pass ∈ passes, ∀ w < setup.words,
      pass.1.countP (fun label => label.2.any (Access.storesTo (wordAt setup.buffer w))) = 1 ∧
      pass.2.countP (fun label => label.2.any (Access.loadsFrom (wordAt setup.buffer w))) = 1) ∧
    memory' setup.errors =
      memory setup.errors + UInt32.ofNat (seeds.map (mismatches setup faults)).sum := by
  induction h with
  | nil => simp
  | cons hfill hcheck _ ih =>
    obtain ⟨hwritten, hkept⟩ := fill_launched hsetup hfill
    obtain ⟨hread, hcount⟩ := check_launched hsetup (fun w hw => (hwritten w hw).1) hcheck
    refine ⟨List.forall_mem_cons.2 ⟨fun w hw => ⟨(hwritten w hw).2, hread w hw⟩, ih.1⟩, ?_⟩
    rw [ih.2, hcount, hkept, List.map_cons, List.sum_cons, UInt32.ofNat_add, add_assoc]

/-- A bit that is stuck shows in the pattern or in its inverse. -/
theorem force_bits (x z o : BitVec 32) :
    (x &&& ~~~z) ||| o = x ∧ (~~~x &&& ~~~z) ||| o = ~~~x ↔ z = 0#32 ∧ o = 0#32 := by
  constructor
  · rintro ⟨hpattern, hinverse⟩
    have hbit : ∀ i, z.getLsbD i = false ∧ o.getLsbD i = false := by
      intro i
      by_cases hi : i < 32
      · have h₁ := congrArg (fun v : BitVec 32 => v.getLsbD i) hpattern
        have h₂ := congrArg (fun v : BitVec 32 => v.getLsbD i) hinverse
        simp only [BitVec.getLsbD_or, BitVec.getLsbD_and, BitVec.getLsbD_not, hi, decide_true,
          Bool.true_and] at h₁ h₂
        cases hx : x.getLsbD i <;> cases hz : z.getLsbD i <;> cases ho : o.getLsbD i <;>
          simp [hx, hz, ho] at h₁ h₂ ⊢
      · exact ⟨BitVec.getLsbD_of_ge _ _ (by omega), BitVec.getLsbD_of_ge _ _ (by omega)⟩
    exact ⟨BitVec.eq_of_getLsbD_eq fun i _ => by simp [(hbit i).1],
      BitVec.eq_of_getLsbD_eq fun i _ => by simp [(hbit i).2]⟩
  · rintro ⟨rfl, rfl⟩
    simp only [BitVec.not_zero, BitVec.and_allOnes, BitVec.or_zero, and_self]

/-- The pattern and its inverse read back right exactly if no bit of the word is stuck. -/
theorem force_pattern_iff (stuck : Stuck) (w : ℕ) :
    (∀ seed ∈ testSeeds, stuck.force (pattern seed w) = pattern seed w) ↔
      stuck.zeros = 0 ∧ stuck.ones = 0 := by
  have hbits := force_bits (UInt32.ofNat w * 1664525).toBitVec stuck.zeros.toBitVec
    stuck.ones.toBitVec
  have hsame : pattern 0 w = UInt32.ofNat w * 1664525 := by
    rw [pattern, UInt32.xor_zero]
  have hinverse : pattern 0xFFFFFFFF w = ~~~(UInt32.ofNat w * 1664525) := by
    rw [pattern, ← UInt32.toBitVec_inj, UInt32.toBitVec_xor, UInt32.toBitVec_not]
    exact BitVec.xor_allOnes
  simp only [testSeeds, List.forall_mem_cons, List.not_mem_nil, false_imp_iff, implies_true,
    and_true, hsame, hinverse, Stuck.force, ← UInt32.toBitVec_inj, UInt32.toBitVec_or,
    UInt32.toBitVec_and, UInt32.toBitVec_not]
  exact hbits

theorem mismatches_le (setup : VramSetup) (faults : ℕ → Stuck) (seed : UInt32) :
    mismatches setup faults seed ≤ setup.words := by
  simpa [mismatches] using List.countP_le_length (l := List.range setup.words)
    (p := fun w => decide ((faults w).force (pattern seed w) ≠ pattern seed w))

theorem mismatches_eq_zero {seed : UInt32} : mismatches setup faults seed = 0 ↔
    ∀ w < setup.words, (faults w).force (pattern seed w) = pattern seed w := by
  rw [mismatches, List.countP_eq_zero]
  simp

/-- **The VRAM test finds every stuck bit**: the launches end; each visits every word once; the
counter is the exact number of words that read back differently, over both patterns; and the test
passes if and only if no word has a stuck bit. -/
theorem vram_test_exact (setup : VramSetup) (hsetup : setup.Allocated) (faults : ℕ → Stuck) :
    (∀ seed memory,
      Terminates fillKernel (setup.fillParams seed) setup.blocks (setup.view faults) memory ∧
      Terminates checkKernel (setup.checkParams seed) setup.blocks (setup.view faults) memory) ∧
    ∀ memory passes memory',
      Passes setup faults testSeeds (clearErrors setup memory) passes memory' →
      (∀ pass ∈ passes, ∀ w < setup.words,
        pass.1.countP (fun label => label.2.any (Access.storesTo (wordAt setup.buffer w))) = 1 ∧
        pass.2.countP (fun label => label.2.any (Access.loadsFrom (wordAt setup.buffer w))) = 1) ∧
      (memory' setup.errors).toNat = (testSeeds.map (mismatches setup faults)).sum ∧
      (vramResult setup memory' = .ok () ↔
        ∀ w < setup.words, (faults w).zeros = 0 ∧ (faults w).ones = 0) := by
  refine ⟨fun seed memory => ⟨fun regs => ?_, fun regs => ?_⟩, fun memory passes memory' h => ?_⟩
  · exact (fill_planned hsetup seed _ memory regs).exists_complete
  · exact (check_planned hsetup faults seed memory regs).exists_complete
  · obtain ⟨hvisits, hcount⟩ := h.spec hsetup
    have hwords : setup.words ≤ 2 ^ 28 := hsetup.words
    have h₀ := mismatches_le setup faults 0
    have h₁ := mismatches_le setup faults 0xFFFFFFFF
    have hsum : (testSeeds.map (mismatches setup faults)).sum =
        mismatches setup faults 0 + mismatches setup faults 0xFFFFFFFF := by
      simp [testSeeds]
    have hsize : UInt32.size = 2 ^ 32 := rfl
    -- two passes over at most 2 ^ 28 words do not bring the counter round to 0
    have hexact : (memory' setup.errors).toNat =
        (testSeeds.map (mismatches setup faults)).sum := by
      rw [hcount, clearErrors, Function.update_self, zero_add, UInt32.toNat_ofNat_of_lt' (by omega)]
    refine ⟨hvisits, hexact, ?_⟩
    have hok : vramResult setup memory' = .ok () ↔
        (testSeeds.map (mismatches setup faults)).sum = 0 := by
      have hzero : (0 : UInt32).toNat = 0 := rfl
      have hpos : 0 < memory' setup.errors ↔ 0 < (memory' setup.errors).toNat := by
        rw [UInt32.lt_iff_toNat_lt, hzero]
      rw [← hexact, vramResult]
      by_cases h : 0 < memory' setup.errors
      · rw [if_pos h]
        exact iff_of_false (by simp) (hpos.1 h).ne'
      · rw [if_neg h]
        exact iff_of_true rfl (Nat.eq_zero_of_not_pos fun hlt => h (hpos.2 hlt))
    -- a word that reads right with the pattern and with its inverse has no stuck bit
    rw [hok, hsum, Nat.add_eq_zero_iff, mismatches_eq_zero, mismatches_eq_zero, ← forall₂_and]
    refine forall₂_congr fun w _ => ?_
    rw [← force_pattern_iff (faults w) w]
    simp [testSeeds]

/-- A buffer of two words, and one block. -/
def twoWords : VramSetup where
  blocks := 1
  words := 2
  buffer := 4096
  errors := 8192

theorem twoWords_allocated : twoWords.Allocated where
  blocks := by decide
  words := by decide
  buffer := by decide +kernel
  errors := by decide +kernel
  apart := by
    unfold twoWords
    decide +kernel

/-- The top bit of the first word is stuck at 1. -/
def topStuck (w : ℕ) : Stuck := if w = 0 then ⟨0, 0x80000000⟩ else ⟨0, 0⟩

theorem vram_test_twoWords :
    (∀ seed memory,
      Terminates fillKernel (twoWords.fillParams seed) 1 (twoWords.view topStuck) memory ∧
      Terminates checkKernel (twoWords.checkParams seed) 1 (twoWords.view topStuck) memory) ∧
    ∀ memory passes memory',
      Passes twoWords topStuck testSeeds (clearErrors twoWords memory) passes memory' →
      (∀ pass ∈ passes, ∀ w < 2,
        pass.1.countP (fun label => label.2.any (Access.storesTo (wordAt 4096 w))) = 1 ∧
        pass.2.countP (fun label => label.2.any (Access.loadsFrom (wordAt 4096 w))) = 1) ∧
      (memory' 8192).toNat = (testSeeds.map (mismatches twoWords topStuck)).sum ∧
      (vramResult twoWords memory' = .ok () ↔
        ∀ w < 2, (topStuck w).zeros = 0 ∧ (topStuck w).ones = 0) :=
  vram_test_exact twoWords twoWords_allocated topStuck

end Test

end Ptx

end Roster
