import Mathlib.Data.List.Nodup
import Roster.Executor.Basic
import Roster.LTS.Basic

/-!
# A job in its scope

`launch` spawns `systemd-run`, which puts itself into a new scope and becomes the wrapper: it runs
the job, and once the job has ended it starts `mv` to put the exit code in place and exits.
Whatever the job started may stay in the scope after that, and any process of the scope may be
killed at any time (`JobScope.perform`).

`poll_scope` looks four times while this goes on: at its child, at the exit file, at the process it
knows the job by, and at the processes of the scope, the last of which are two looks again
(`pollScope`).

* `Looks.keepsCode_iff` : when a poll that finds the job ended answers the code on file.
* `Looks.codeCovered_of_child` : for the daemon's own child it does, unless the wrapper was killed
  and its `mv` was not.
-/

namespace Roster

/-! ### The wrapper and its scope -/

/-- How far the process of a launch is. -/
inductive JobScope.Phase
  /-- `systemd-run` is setting the scope up. -/
  | settingUp
  /-- The wrapper waits for the job. -/
  | running
  /-- The job has ended with `code`. -/
  | ended (code : Int32)
  /-- The wrapper waits for `mv`. -/
  | moving
  | gone
  deriving DecidableEq, Repr

/-- The process of a launch, the scope it is in and what is in its exit file. -/
structure JobScope where
  pid : ℕ
  phase : JobScope.Phase
  /-- The running `mv` and the code it puts in place. -/
  mv : Option (ℕ × Int32)
  procs : List ℕ
  exitFile : Option Int32
  deriving DecidableEq, Repr

namespace JobScope

/-- The steps of a job, of what it started, and of whoever kills them. -/
inductive Change
  | setUp
  /-- `systemd-run` ends without having run the job. -/
  | setUpFails
  | jobEnds (code : Int32)
  | startMv (pid : ℕ)
  | rename
  | fork (pid : ℕ)
  | dies (pid : ℕ)
  deriving DecidableEq, Repr

/-- The process of `pid` is gone. -/
def without (job : JobScope) (pid : ℕ) : JobScope :=
  { job with
    phase := if pid = job.pid then .gone else job.phase
    mv := if job.mv.map Prod.fst = some pid then none else job.mv
    procs := job.procs.erase pid }

/-- One step in a scope. -/
def perform (job : JobScope) : Change → Option JobScope
  | .setUp =>
    if job.phase = .settingUp then some { job with phase := .running, procs := [job.pid] } else none
  | .setUpFails => if job.phase = .settingUp then some { job with phase := .gone } else none
  | .jobEnds code => if job.phase = .running then some { job with phase := .ended code } else none
  | .startMv pid =>
    match job.phase with
    | .ended code =>
      if pid ∈ job.procs then none
      else some { job with phase := .moving, mv := some (pid, code), procs := pid :: job.procs }
    | _ => none
  | .rename => job.mv.map fun mv => { job with mv := none, exitFile := some mv.2 }
  | .fork pid =>
    if job.procs = [] ∨ pid ∈ job.procs then none else some { job with procs := pid :: job.procs }
  | .dies pid => if pid ∈ job.procs then some (job.without pid) else none

/-- The life of a job in its scope. -/
def lts : LTS JobScope Change := .ofPerform perform

/-- What `spawn` starts. -/
def spawned (pid : ℕ) : JobScope := ⟨pid, .settingUp, none, [], none⟩

/-- The wrapper is alive and in the scope. -/
def Phase.inScope : Phase → Bool
  | .running | .ended _ | .moving => true
  | _ => false

/-- The exit code has been on its way. -/
def Phase.late : Phase → Bool
  | .moving | .gone => true
  | _ => false

/-- A living wrapper and a running `mv` are in the scope; an exit code is put in place once. -/
structure Inv (job : JobScope) : Prop where
  nodup : job.procs.Nodup
  wrapper : job.phase.inScope = true → job.pid ∈ job.procs
  mv : ∀ {pid code}, job.mv = some (pid, code) → pid ∈ job.procs ∧ job.phase.late = true
  exitFile : job.exitFile ≠ none → job.mv = none ∧ job.phase.late = true
  settingUp : job.phase = .settingUp → job.procs = []

theorem Inv.spawned (pid : ℕ) : Inv (spawned pid) where
  nodup := List.nodup_nil
  wrapper h := by cases h
  mv h := by cases h
  exitFile h := absurd rfl h
  settingUp _ := rfl

theorem late_without {job : JobScope} {pid : ℕ} (h : job.phase.late = true) :
    (job.without pid).phase.late = true := by
  by_cases hself : pid = job.pid
  · simp [JobScope.without, hself, Phase.late]
  · simpa [JobScope.without, hself] using h

theorem Inv.without {job : JobScope} (h : Inv job) (pid : ℕ) : Inv (job.without pid) where
  nodup := h.nodup.erase pid
  wrapper hphase := by
    by_cases hpid : pid = job.pid
    · have hgone : (job.without pid).phase = .gone := if_pos hpid
      rw [hgone] at hphase
      cases hphase
    · have hmem := h.wrapper (by simpa [JobScope.without, hpid] using hphase)
      exact (List.mem_erase_of_ne (Ne.symm hpid)).2 hmem
  mv := by
    intro mvPid code hmv
    by_cases hpid : job.mv.map Prod.fst = some pid
    · simp [JobScope.without, hpid] at hmv
    · have hmv' : job.mv = some (mvPid, code) := by simpa [JobScope.without, hpid] using hmv
      have hne : mvPid ≠ pid := by
        rintro rfl
        exact hpid (by rw [hmv']; rfl)
      obtain ⟨hmem, hlate⟩ := h.mv hmv'
      refine ⟨(List.mem_erase_of_ne hne).2 hmem, ?_⟩
      exact late_without hlate
  exitFile hfile := by
    obtain ⟨hmv, hlate⟩ := h.exitFile hfile
    refine ⟨by simp [JobScope.without, hmv], ?_⟩
    exact late_without hlate
  settingUp hphase := by
    by_cases hpid : pid = job.pid
    · simp [JobScope.without, hpid] at hphase
    · have hprocs := h.settingUp (by simpa [JobScope.without, hpid] using hphase)
      simp [JobScope.without, hprocs]

/-- What a step can do. -/
theorem perform_cases {job job' : JobScope} {change : Change}
    (h : job.perform change = some job') :
    (change = .setUp ∧ job.phase = .settingUp ∧
      job' = { job with phase := .running, procs := [job.pid] }) ∨
    (change = .setUpFails ∧ job.phase = .settingUp ∧ job' = { job with phase := .gone }) ∨
    (∃ code, change = .jobEnds code ∧ job.phase = .running ∧
      job' = { job with phase := .ended code }) ∨
    (∃ pid code, change = .startMv pid ∧ job.phase = .ended code ∧ pid ∉ job.procs ∧
      job' = { job with phase := .moving, mv := some (pid, code), procs := pid :: job.procs }) ∨
    (∃ pid code, change = .rename ∧ job.mv = some (pid, code) ∧
      job' = { job with mv := none, exitFile := some code }) ∨
    (∃ pid, change = .fork pid ∧ job.procs ≠ [] ∧ pid ∉ job.procs ∧
      job' = { job with procs := pid :: job.procs }) ∨
    (∃ pid, change = .dies pid ∧ pid ∈ job.procs ∧ job' = job.without pid) := by
  cases change with
  | setUp =>
    obtain ⟨hphase, heq⟩ := Option.ite_none_right_eq_some.1 h
    cases heq
    exact .inl ⟨rfl, hphase, rfl⟩
  | setUpFails =>
    obtain ⟨hphase, heq⟩ := Option.ite_none_right_eq_some.1 h
    cases heq
    exact .inr (.inl ⟨rfl, hphase, rfl⟩)
  | jobEnds code =>
    obtain ⟨hphase, heq⟩ := Option.ite_none_right_eq_some.1 h
    cases heq
    exact .inr (.inr (.inl ⟨code, rfl, hphase, rfl⟩))
  | startMv pid =>
    cases hphase : job.phase with
    | ended code =>
      rw [perform, hphase] at h
      obtain ⟨hfresh, heq⟩ := Option.ite_none_left_eq_some.1 h
      cases heq
      exact .inr (.inr (.inr (.inl ⟨pid, code, rfl, rfl, hfresh, rfl⟩)))
    | _ => rw [perform, hphase] at h; cases h
  | rename =>
    obtain ⟨⟨pid, code⟩, hmv, rfl⟩ := Option.map_eq_some_iff.1 h
    exact .inr (.inr (.inr (.inr (.inl ⟨pid, code, rfl, hmv, rfl⟩))))
  | fork pid =>
    obtain ⟨hfresh, heq⟩ := Option.ite_none_left_eq_some.1 h
    cases heq
    rw [not_or] at hfresh
    exact .inr (.inr (.inr (.inr (.inr (.inl ⟨pid, rfl, hfresh.1, hfresh.2, rfl⟩)))))
  | dies pid =>
    obtain ⟨hmem, heq⟩ := Option.ite_none_right_eq_some.1 h
    cases heq
    exact .inr (.inr (.inr (.inr (.inr (.inr ⟨pid, rfl, hmem, rfl⟩)))))

theorem Inv.step {job job' : JobScope} {change : Change} (hinv : Inv job)
    (h : job.perform change = some job') : Inv job' := by
  -- before the job has ended nothing writes an exit code
  have hnone : job.phase.late = false → job.mv = none ∧ job.exitFile = none := by
    intro hlate
    refine ⟨?_, ?_⟩
    · by_contra hmv
      obtain ⟨⟨pid, code⟩, hmv⟩ := Option.ne_none_iff_exists'.1 hmv
      simpa [hlate] using (hinv.mv hmv).2
    · by_contra hfile
      simpa [hlate] using (hinv.exitFile hfile).2
  rcases perform_cases h with ⟨-, hphase, rfl⟩ | ⟨-, hphase, rfl⟩ | ⟨code, -, hphase, rfl⟩ |
    ⟨pid, code, -, hphase, hfresh, rfl⟩ | ⟨pid, code, -, hmv, rfl⟩ | ⟨pid, -, hne, hfresh, rfl⟩ |
    ⟨pid, -, hmem, rfl⟩
  · obtain ⟨hmv, hfile⟩ := hnone (by rw [hphase]; rfl)
    exact ⟨List.nodup_singleton _, fun _ => List.mem_singleton_self _, by simp [hmv],
      fun hne => absurd hfile hne, by simp⟩
  · obtain ⟨hmv, hfile⟩ := hnone (by rw [hphase]; rfl)
    refine ⟨hinv.nodup, ?_, by simp [hmv], fun hne => absurd hfile hne, by simp⟩
    intro hphase
    cases hphase
  · obtain ⟨hmv, hfile⟩ := hnone (by rw [hphase]; rfl)
    exact ⟨hinv.nodup, fun _ => hinv.wrapper (by rw [hphase]; rfl), by simp [hmv],
      fun hne => absurd hfile hne, by simp⟩
  · obtain ⟨hmv, hfile⟩ := hnone (by rw [hphase]; rfl)
    refine ⟨List.nodup_cons.2 ⟨hfresh, hinv.nodup⟩, fun _ => List.mem_cons_of_mem _
      (hinv.wrapper (by rw [hphase]; rfl)), ?_, fun hne => absurd hfile hne, by simp⟩
    intro mvPid code' hmv'
    obtain ⟨rfl, -⟩ := Prod.mk.inj (Option.some.inj hmv')
    exact ⟨List.mem_cons_self, rfl⟩
  · obtain ⟨hmem, hlate⟩ := hinv.mv hmv
    exact ⟨hinv.nodup, hinv.wrapper, by simp, fun _ => ⟨rfl, hlate⟩, hinv.settingUp⟩
  · refine ⟨List.nodup_cons.2 ⟨hfresh, hinv.nodup⟩, fun hphase =>
      List.mem_cons_of_mem _ (hinv.wrapper hphase), ?_, hinv.exitFile,
      fun hphase => absurd (hinv.settingUp hphase) hne⟩
    intro mvPid code hmv
    exact ⟨List.mem_cons_of_mem _ (hinv.mv hmv).1, (hinv.mv hmv).2⟩
  · exact hinv.without pid

theorem Inv.reach {job job' : JobScope} (hinv : Inv job) (h : lts.Reach job job') : Inv job' :=
  h.invariant (I := Inv) hinv fun _ _ _ _ hinv hst => hinv.step hst

/-- An exit code on file stays. -/
theorem exitFile_of_reach {job job' : JobScope} {code : Int32} (hinv : Inv job)
    (hfile : job.exitFile = some code) (h : lts.Reach job job') : job'.exitFile = some code := by
  have hboth : Inv job' ∧ job'.exitFile = some code := by
    refine h.invariant (I := fun job => Inv job ∧ job.exitFile = some code) ⟨hinv, hfile⟩ ?_
    rintro before change after - ⟨hinv, hfile⟩ hst
    refine ⟨hinv.step hst, ?_⟩
    have hmv : before.mv = none := (hinv.exitFile (by simp [hfile])).1
    rcases perform_cases hst with ⟨-, -, rfl⟩ | ⟨-, -, rfl⟩ | ⟨_, -, -, rfl⟩ |
      ⟨_, _, -, -, -, rfl⟩ | ⟨_, _, -, hsome, rfl⟩ | ⟨_, -, -, -, rfl⟩ | ⟨_, -, -, rfl⟩ <;>
      first | exact hfile | simp [hmv] at hsome
  exact hboth.2

/-- Nobody is left to put an exit code in place. -/
def Settled (job : JobScope) : Prop := job.phase = .gone ∧ job.mv = none

/-- Then what is on file, or not, stays. -/
theorem Settled.exitFile_of_reach {job job' : JobScope} (hsettled : Settled job)
    (h : lts.Reach job job') : job'.exitFile = job.exitFile := by
  have hboth : Settled job' ∧ job'.exitFile = job.exitFile := by
    refine h.invariant (I := fun after => Settled after ∧ after.exitFile = job.exitFile)
      ⟨hsettled, rfl⟩ ?_
    rintro before change after - ⟨⟨hphase, hmv⟩, hfile⟩ hst
    rcases perform_cases hst with ⟨-, hset, rfl⟩ | ⟨-, hset, rfl⟩ | ⟨_, -, hset, rfl⟩ |
      ⟨_, _, -, hset, -, rfl⟩ | ⟨_, _, -, hsome, rfl⟩ | ⟨_, -, -, -, rfl⟩ | ⟨_, -, -, rfl⟩
    all_goals first
      | exact absurd (hphase.symm.trans hset) (by simp)
      | exact absurd (hmv.symm.trans hsome) (by simp)
      | exact ⟨⟨by simp [without, hphase], by simp [without, hmv]⟩, hfile⟩
  exact hboth.2

end JobScope

/-! ### Polling -/

/-- The statuses `waitpid` reports. -/
inductive WaitStatus
  | stillAlive
  | exited (code : Int32)
  | signaled (signal : ℕ)
  /-- Stopped, continued or traced. -/
  | other
  deriving DecidableEq, Repr

/-- The errors of `waitpid`. -/
inductive WaitError
  /-- ECHILD: no such child, or one that was reaped already. -/
  | noChild
  | other (error : String)
  deriving DecidableEq, Repr

/-- `read_exit_code`: 128 + N, how a shell reports death by signal N, becomes -1. -/
def readExitCode (exitFile : Option Int32) : Option Int32 :=
  exitFile.map fun code => if 129 ≤ code ∧ code ≤ 192 then -1 else code

/-- `in_scope`. -/
def inScope (pid : ℕ) (procs : List ℕ) : Bool := decide (0 < pid ∧ pid ∈ procs)

/-- `scope_pids`: systemd names the cgroup of a scope that has processes, then they are listed. -/
def scopePids (shown listed : List ℕ) : List ℕ := if shown = [] then [] else listed

/-- `waitpid` says that the daemon's own child is alive. -/
def JobScope.stillAlive (child : Bool) (job : JobScope) : Bool :=
  child && decide (job.phase ≠ .gone)

/-- `poll_scope`, by what it sees at each of its looks. -/
def pollScope (stillAlive : Bool) (exitFile : Option Int32) (inScope : Bool) (pids : List ℕ) :
    PollResult :=
  if stillAlive then .running
  else match readExitCode exitFile with
    | some code => .exited code
    | none => if inScope ∨ pids ≠ [] then .running else .exited (-1)

/-- `poll_child`: without a scope only `waitpid` is asked. -/
def ShellExecutor.pollChild (waited : Except WaitError WaitStatus) : Except ExecutorError PollResult :=
  match waited with
  | .ok .stillAlive => .ok .running
  | .ok (.exited exitCode) => .ok (.exited exitCode)
  | .ok (.signaled _) => .ok (.exited (-1))
  | .ok .other => .ok .running
  | .error .noChild => .ok (.exited 0)
  | .error (.other error) => .error (.waitFailed error)

/-- A job at the looks of a poll, and later on: anything may happen between two of them. -/
structure Looks (pid : ℕ) where
  waited : JobScope
  read : JobScope
  checked : JobScope
  shown : JobScope
  listed : JobScope
  later : JobScope
  launched : JobScope.lts.Reach (.spawned pid) waited
  toRead : JobScope.lts.Reach waited read
  toChecked : JobScope.lts.Reach read checked
  toShown : JobScope.lts.Reach checked shown
  toListed : JobScope.lts.Reach shown listed
  toLater : JobScope.lts.Reach listed later

namespace Looks

variable {pid : ℕ}

/-- What the poll answers; `child` is whether the daemon started the job itself, and otherwise
`hostPid` is the process of the scope it found, or 0. -/
def poll (looks : Looks pid) (child : Bool) (hostPid : ℕ) : PollResult :=
  pollScope (looks.waited.stillAlive child) looks.read.exitFile
    (inScope hostPid looks.checked.procs) (scopePids looks.shown.procs looks.listed.procs)

/-- When the wrapper puts a code on file and the poll finds the job ended, it answers that code. -/
def KeepsCode (looks : Looks pid) (child : Bool) (hostPid : ℕ) : Prop :=
  ∀ code value, looks.later.exitFile = some code → looks.poll child hostPid = .exited value →
    readExitCode (some code) = some value

/-- The code is on file when the poll reads it or never, a process is still seen, or the code
reads as -1. -/
def CodeCovered (looks : Looks pid) (child : Bool) (hostPid : ℕ) : Prop :=
  looks.waited.stillAlive child = true ∨ looks.read.exitFile ≠ none ∨
    looks.later.exitFile = none ∨ inScope hostPid looks.checked.procs = true ∨
    scopePids looks.shown.procs looks.listed.procs ≠ [] ∨
    readExitCode looks.later.exitFile = some (-1)

theorem read_inv (looks : Looks pid) : looks.read.Inv :=
  ((JobScope.Inv.spawned pid).reach looks.launched).reach looks.toRead

theorem readToLater (looks : Looks pid) : JobScope.lts.Reach looks.read looks.later :=
  ((looks.toChecked.trans looks.toShown).trans looks.toListed).trans looks.toLater

/-- A poll that sees neither its child nor a code nor a process falls back to -1. -/
theorem poll_eq_fallback {looks : Looks pid} {child : Bool} {hostPid : ℕ}
    (halive : looks.waited.stillAlive child = false) (hfile : looks.read.exitFile = none)
    (hscope : inScope hostPid looks.checked.procs = false)
    (hpids : scopePids looks.shown.procs looks.listed.procs = []) :
    looks.poll child hostPid = .exited (-1) := by
  simp [poll, pollScope, halive, hfile, hscope, hpids, readExitCode]

/-- For the daemon's own child the code is on file once the child is gone, unless an `mv` has
outlived the wrapper. -/
theorem codeCovered_of_child (looks : Looks pid) (hostPid : ℕ) (hmv : looks.waited.mv = none) :
    looks.CodeCovered true hostPid := by
  by_cases hphase : looks.waited.phase = .gone
  · have hsettled : looks.waited.Settled := ⟨hphase, hmv⟩
    have hread := hsettled.exitFile_of_reach looks.toRead
    have hlater := hsettled.exitFile_of_reach (looks.toRead.trans looks.readToLater)
    by_cases hfile : looks.read.exitFile = none
    · exact .inr (.inr (.inl (by rw [hlater, ← hread, hfile])))
    · exact .inr (.inl hfile)
  · exact .inl (by simp [JobScope.stillAlive, hphase])

theorem keepsCode_of_covered {looks : Looks pid} {child : Bool} {hostPid : ℕ}
    (h : looks.CodeCovered child hostPid) : looks.KeepsCode child hostPid := by
  intro code value hlater hpoll
  by_cases halive : looks.waited.stillAlive child = true
  · rw [poll, pollScope, if_pos halive] at hpoll
    cases hpoll
  rw [poll, pollScope, if_neg halive] at hpoll
  cases hfile : looks.read.exitFile with
  | some onFile =>
    -- a code once on file is the one that stays there
    have hsame := JobScope.exitFile_of_reach looks.read_inv hfile looks.readToLater
    obtain rfl : onFile = code := Option.some.inj (hsame.symm.trans hlater)
    rw [hfile] at hpoll
    simpa [readExitCode] using hpoll
  | none =>
    rw [hfile, readExitCode, Option.map_none] at hpoll
    by_cases hseen : inScope hostPid looks.checked.procs = true ∨
        scopePids looks.shown.procs looks.listed.procs ≠ []
    · rw [if_pos hseen] at hpoll
      cases hpoll
    · rw [if_neg hseen] at hpoll
      obtain rfl : -1 = value := PollResult.exited.inj hpoll
      rw [not_or, not_not] at hseen
      rcases h with h | h | h | h | h | h
      · exact absurd h halive
      · exact absurd hfile h
      · rw [hlater] at h
        cases h
      · exact absurd h hseen.1
      · exact absurd hseen.2 h
      · rwa [hlater] at h

/-- **When a poll keeps the exit code.**  A poll that finds the job ended answers the code its
wrapper has put on file exactly when the code is on file as the poll reads it (or never), or the
poll still sees a process, or the code reads as -1; and for the daemon's own child this is so unless
its wrapper is gone with an `mv` still under way. -/
theorem keepsCode_iff (looks : Looks pid) (child : Bool) (hostPid : ℕ) :
    (looks.KeepsCode child hostPid ↔ looks.CodeCovered child hostPid) ∧
      (child = true → looks.waited.mv = none → looks.CodeCovered child hostPid) := by
  refine ⟨⟨?_, keepsCode_of_covered⟩, ?_⟩
  · intro h
    by_contra hnot
    simp only [CodeCovered, not_or, not_not, Bool.not_eq_true] at hnot
    obtain ⟨halive, hfile, hlater, hscope, hpids, hcode⟩ := hnot
    obtain ⟨code, hcode'⟩ := Option.ne_none_iff_exists'.1 hlater
    have hkept := h code (-1) hcode' (poll_eq_fallback halive hfile hscope hpids)
    rw [hcode'] at hcode
    exact hcode hkept
  · rintro rfl hmv
    exact codeCovered_of_child looks hostPid hmv

end Looks

/-! ### A job that ends between two looks -/

theorem JobScope.reach_of_performs {job job' : JobScope} (changes : List Change)
    (h : LTS.performs perform job changes = some job') : lts.Reach job job' :=
  (LTS.Reach.of_performs (G := fun _ _ => True) h fun _ _ _ => trivial).of_guard

/-- A job taken back after a restart, whose wrapper, process 5, puts the code 0 on file after the
poll has read the exit file, and whose scope is empty at the next look. -/
def endsWhilePolled : Looks 5 :=
  let running : JobScope := ⟨5, .running, none, [5], none⟩
  let emptied : JobScope := ⟨5, .gone, none, [], some 0⟩
  { waited := running, read := running, checked := emptied, shown := emptied
    listed := emptied
    later := emptied
    launched := JobScope.reach_of_performs [.setUp] rfl
    toRead := .refl
    toChecked := JobScope.reach_of_performs
      [.jobEnds 0, .startMv 6, .rename, .dies 6, .dies 5] rfl
    toShown := .refl
    toListed := .refl
    toLater := .refl }

/-- The poll answers -1 although the code 0 is on file. -/
theorem endsWhilePolled_loses : endsWhilePolled.later.exitFile = some 0 ∧
    endsWhilePolled.poll false 5 = .exited (-1) ∧ ¬ endsWhilePolled.KeepsCode false 5 := by
  refine ⟨rfl, rfl, fun h => ?_⟩
  have hcode := h 0 (-1) rfl rfl
  revert hcode
  decide

end Roster
