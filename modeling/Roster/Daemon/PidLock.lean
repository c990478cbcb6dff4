import Mathlib.Data.Nat.Notation
import Mathlib.Logic.Function.Basic
import Roster.LTS.Basic

/-!
# One daemon on a machine

`lock_pid_file` opens (or creates) the pid file, takes an exclusive lock on what it opened and
writes its pid; `run` then sweeps a stale socket and listens; `cleanup` removes the pid file and
the socket while the lock is still held, and the lock goes away when the process does.  The lock
belongs to the opened file, and the path is only a name for it: once the name is removed, the next
daemon creates another file and locks that.

* `Host.perform` : one step of one daemon, all the daemons of a machine sharing the pid path.
* `Host.AtMostOne` : a single daemon is past its lock.
* `LockInv` : while its name has not been removed, the file a daemon has locked is the one at the
  pid path.
* `daemons_atMostOne` : the runs in which the lock is only taken on the file at the pid path, and
  not before a daemon that removed the file has exited, have at most one daemon at any time.
-/

namespace Roster

/-- How far a daemon that has the lock is in `lock_pid_file`, `run` and `cleanup`. -/
inductive Point
  /-- `flock` succeeded. -/
  | locked
  /-- The file is empty, the pid not yet written. -/
  | emptied
  /-- `lock_pid_file` returned. -/
  | written
  /-- `cleanup_stale_socket` is done. -/
  | swept
  /-- The socket is bound. -/
  | listening
  /-- `cleanup` removed the pid file. -/
  | unnamed
  /-- `cleanup` removed the socket as well. -/
  | unbound
  deriving DecidableEq, Repr

/-- This daemon has not removed the pid file. -/
def Point.named : Point → Bool
  | .unnamed | .unbound => false
  | _ => true

/-- Where a daemon is. -/
inductive Stage
  /-- Not started, or gone. -/
  | absent
  /-- It has the pid file open and has not tried the lock. -/
  | opened (file : ℕ)
  /-- The lock is another daemon's. -/
  | denied (file : ℕ)
  /-- `lock_pid_file` fails with `AlreadyRunning`. -/
  | refused (pid : ℕ)
  /-- It has the lock on `file`. -/
  | holding (file : ℕ) (point : Point)
  deriving DecidableEq, Repr

/-- The steps of a daemon. -/
inductive Move
  | openFile
  | flock
  | readPid
  | setLen
  | writePid
  | sweepSocket
  | bind
  | removePid
  | removeSocket
  /-- `run` returns, by an error or at its end, or the process is killed. -/
  | exit
  deriving DecidableEq, Repr

/-- The pid path, the socket path and the daemons of one machine, each called by its pid. -/
structure Host where
  /-- The file at the pid path. -/
  pidFile : Option ℕ
  /-- The files created so far, each with the pid its text stands for. -/
  texts : List (Option ℕ)
  /-- The daemon whose socket is at the socket path. -/
  socket : Option ℕ
  /-- The daemon that has the exclusive lock on a file. -/
  locks : ℕ → Option ℕ
  stage : ℕ → Stage

namespace Host

/-- `daemon` is at `stage` now. -/
def goes (m : Host) (daemon : ℕ) (stage : Stage) : Host :=
  { m with stage := Function.update m.stage daemon stage }

/-- The pid a refused daemon reports: what is at the pid path by then, `0` when that is no pid. -/
def readPid (m : Host) : ℕ :=
  ((m.pidFile.bind fun file => m.texts[file]?).bind id).getD 0

/-- One step of `daemon`. -/
def perform (m : Host) (daemon : ℕ) (move : Move) : Option Host :=
  match move, m.stage daemon with
  | .openFile, .absent =>
    match m.pidFile with
    | some file => some (m.goes daemon (.opened file))
    | none =>
      some ({ m with pidFile := some m.texts.length, texts := m.texts ++ [none] }.goes daemon
        (.opened m.texts.length))
  | .flock, .opened file =>
    match m.locks file with
    | none =>
      some ({ m with locks := Function.update m.locks file (some daemon) }.goes daemon
        (.holding file .locked))
    | some _ => some (m.goes daemon (.denied file))
  -- the path is opened a second time for the pid: it may name another file by now
  | .readPid, .denied _ => some (m.goes daemon (.refused m.readPid))
  | .setLen, .holding file .locked =>
    some ({ m with texts := m.texts.set file none }.goes daemon (.holding file .emptied))
  | .writePid, .holding file .emptied =>
    some ({ m with texts := m.texts.set file (some daemon) }.goes daemon (.holding file .written))
  | .sweepSocket, .holding file .written =>
    some ({ m with socket := none }.goes daemon (.holding file .swept))
  | .bind, .holding file .swept =>
    match m.socket with
    | none => some ({ m with socket := some daemon }.goes daemon (.holding file .listening))
    | some _ => none
  -- `cleanup` also runs when the socket could not be bound
  | .removePid, .holding file .swept | .removePid, .holding file .listening =>
    some ({ m with pidFile := none }.goes daemon (.holding file .unnamed))
  | .removeSocket, .holding file .unnamed =>
    some ({ m with socket := none }.goes daemon (.holding file .unbound))
  | .exit, .opened _ | .exit, .denied _ | .exit, .refused _ => some (m.goes daemon .absent)
  -- the kernel drops the lock with the last handle to the file
  | .exit, .holding file _ =>
    some ({ m with locks := Function.update m.locks file none }.goes daemon .absent)
  | _, _ => none

/-- One step of a daemon of the machine. -/
def moved (m : Host) (event : ℕ × Move) : Option Host := m.perform event.1 event.2

/-- `daemon` is between its successful lock and its exit. -/
def Instance (m : Host) (daemon : ℕ) : Prop :=
  ∃ file point, m.stage daemon = .holding file point

/-- A single daemon is past its lock. -/
def AtMostOne (m : Host) : Prop :=
  ∀ daemon other, m.Instance daemon → m.Instance other → daemon = other

/-- No daemon has been started; a pid file and a socket of a crashed one may be left. -/
structure Idle (m : Host) : Prop where
  absent : ∀ daemon, m.stage daemon = .absent
  unlocked : ∀ file, m.locks file = none

end Host

/-- All the daemons of a machine, in any order of their steps. -/
def daemons : LTS Host (ℕ × Move) := .ofPerform Host.moved

/-- The lock a daemon is about to take is on the file at the pid path, and every daemon that
removed the pid file has exited. -/
def Host.LockSafe (m : Host) (event : ℕ × Move) : Prop :=
  ∀ file, event.2 = .flock → m.stage event.1 = .opened file → m.locks file = none →
    m.pidFile = some file ∧
      ∀ other kept point, m.stage other = .holding kept point → point.named = true

namespace Host

@[simp] theorem goes_stage_self (m : Host) (daemon : ℕ) (stage : Stage) :
    (m.goes daemon stage).stage daemon = stage := by
  simp [goes]

@[simp] theorem goes_pidFile (m : Host) (daemon : ℕ) (stage : Stage) :
    (m.goes daemon stage).pidFile = m.pidFile := rfl

@[simp] theorem goes_locks (m : Host) (daemon : ℕ) (stage : Stage) :
    (m.goes daemon stage).locks = m.locks := rfl

theorem goes_stage_ne (m : Host) {daemon other : ℕ} (stage : Stage) (hne : other ≠ daemon) :
    (m.goes daemon stage).stage other = m.stage other := by
  simp [goes, hne]

/-- What a step does to the locks, the pid path and the daemon that takes it. -/
inductive Moved (m : Host) (daemon : ℕ) (move : Move) (m' : Host) : Prop
  /-- The daemon has no lock afterwards and had none. -/
  | without (before : ¬ m.Instance daemon) (after : ¬ m'.Instance daemon)
      (locks : m'.locks = m.locks) (pidFile : ∀ file, m.pidFile = some file →
        m'.pidFile = some file)
  /-- It takes the lock of the file it opened. -/
  | takes {file : ℕ} (flock : move = .flock) (before : m.stage daemon = .opened file)
      (free : m.locks file = none) (after : m'.stage daemon = .holding file .locked)
      (locks : m'.locks = Function.update m.locks file (some daemon))
      (pidFile : m'.pidFile = m.pidFile)
  /-- It goes on with its lock. -/
  | keeps {file : ℕ} {point point' : Point} (before : m.stage daemon = .holding file point)
      (after : m'.stage daemon = .holding file point') (locks : m'.locks = m.locks)
      (pidFile : point'.named = true → point.named = true ∧ m'.pidFile = m.pidFile)
  /-- It exits with its lock. -/
  | drops {file : ℕ} {point : Point} (before : m.stage daemon = .holding file point)
      (after : m'.stage daemon = .absent) (locks : m'.locks = Function.update m.locks file none)
      (pidFile : m'.pidFile = m.pidFile)

variable {m m' : Host} {daemon : ℕ} {move : Move}

theorem not_instance_of_stage {stage : Stage} (hstage : m.stage daemon = stage)
    (hnot : ∀ file point, stage ≠ .holding file point) : ¬ m.Instance daemon := by
  rintro ⟨file, point, hholding⟩
  exact hnot file point (hstage.symm.trans hholding)

/-- Only the daemon that takes a step changes its stage. -/
theorem perform_stage_ne (h : m.perform daemon move = some m') {other : ℕ}
    (hne : other ≠ daemon) : m'.stage other = m.stage other := by
  unfold perform at h
  split at h
  case h_1 => split at h <;> (cases h; exact goes_stage_ne _ _ hne)
  case h_2 => split at h <;> (cases h; exact goes_stage_ne _ _ hne)
  case h_7 => split at h <;> first | (cases h; exact goes_stage_ne _ _ hne) | cases h
  all_goals first | (cases h; exact goes_stage_ne _ _ hne) | cases h

/-- A step between two stages without a lock. -/
theorem Moved.aside {stage stage' : Stage} (hstage : m.stage daemon = stage)
    (hbefore : ∀ file point, stage ≠ .holding file point)
    (hafter : ∀ file point, stage' ≠ .holding file point) :
    Moved m daemon move (m.goes daemon stage') :=
  .without (not_instance_of_stage hstage hbefore)
    (not_instance_of_stage (goes_stage_self ..) hafter) rfl fun _ h => h

/-- The inversion of `perform`: what any step of a daemon can do. -/
theorem perform_moved (h : m.perform daemon move = some m') : Moved m daemon move m' := by
  unfold perform at h
  split at h
  case h_1 hstage =>
    split at h <;> cases h
    case h_1 => exact .aside hstage (by simp) (by simp)
    case h_2 hnone =>
      refine .without (not_instance_of_stage hstage (by simp))
        (not_instance_of_stage (goes_stage_self ..) (by simp)) rfl ?_
      intro file hfile
      simp [hnone] at hfile
  case h_2 file hstage =>
    split at h <;> cases h
    case h_1 hfree => exact .takes rfl hstage hfree (goes_stage_self ..) rfl rfl
    case h_2 => exact .aside hstage (by simp) (by simp)
  case h_7 file hstage =>
    split at h <;> cases h
    exact .keeps hstage (goes_stage_self ..) rfl fun _ => ⟨rfl, rfl⟩
  case h_15 => cases h
  all_goals rename_i hstage; cases h
  case h_3 => exact .aside hstage (by simp) (by simp)
  case h_4 | h_5 | h_6 =>
    exact .keeps hstage (goes_stage_self ..) rfl fun _ => ⟨rfl, rfl⟩
  -- the steps of `cleanup`, after which the daemon answers for no name
  case h_8 | h_9 | h_10 =>
    exact .keeps hstage (goes_stage_self ..) rfl (by simp [Point.named])
  case h_11 | h_12 | h_13 => exact .aside hstage (by simp) (by simp)
  case h_14 => exact .drops hstage (goes_stage_self ..) rfl rfl

end Host

/-! ### The lock and the path -/

/-- A daemon past its lock has the lock of its file; until it removed the pid file itself, the
file at the pid path is the one it locked; and it is the only daemon past its lock. -/
structure LockInv (m : Host) : Prop where
  locks : ∀ {daemon file point}, m.stage daemon = .holding file point →
    m.locks file = some daemon
  named : ∀ {daemon file point}, m.stage daemon = .holding file point → point.named = true →
    m.pidFile = some file
  atMostOne : m.AtMostOne

theorem Host.Idle.lockInv {m : Host} (h : m.Idle) : LockInv m where
  locks hholding := by simp [h.absent] at hholding
  named hholding := by simp [h.absent] at hholding
  atMostOne := by
    rintro daemon _ ⟨file, point, hholding⟩
    simp [h.absent] at hholding

/-- A daemon that has no lock before or after its step disturbs none. -/
theorem LockInv.without {m m' : Host} {daemon : ℕ} (h : LockInv m)
    (hframe : ∀ other, other ≠ daemon → m'.stage other = m.stage other)
    (hafter : ¬ m'.Instance daemon)
    (hlocks : ∀ file other, other ≠ daemon → m.locks file = some other →
      m'.locks file = some other)
    (hpidFile : ∀ file, m.pidFile = some file → m'.pidFile = some file) : LockInv m' := by
  have hother : ∀ {other file point}, m'.stage other = .holding file point →
      other ≠ daemon ∧ m.stage other = .holding file point := by
    intro other file point hholding
    have hne : other ≠ daemon := by
      rintro rfl
      exact hafter ⟨file, point, hholding⟩
    exact ⟨hne, (hframe other hne).symm.trans hholding⟩
  refine ⟨?_, ?_, ?_⟩
  · intro other file point hholding
    obtain ⟨hne, hbefore⟩ := hother hholding
    exact hlocks file other hne (h.locks hbefore)
  · intro other file point hholding hnamed
    exact hpidFile file (h.named (hother hholding).2 hnamed)
  · rintro other another ⟨file, point, hholding⟩ ⟨file', point', hholding'⟩
    exact h.atMostOne _ _ ⟨file, point, (hother hholding).2⟩ ⟨file', point', (hother hholding').2⟩

/-- A daemon that is past its lock after its step, when no other is past its own. -/
theorem LockInv.alone {m' : Host} {daemon file : ℕ} {point : Point}
    (hothers : ∀ other, other ≠ daemon → ¬ m'.Instance other)
    (hafter : m'.stage daemon = .holding file point) (hlocks : m'.locks file = some daemon)
    (hpidFile : point.named = true → m'.pidFile = some file) : LockInv m' := by
  have honly : ∀ {other file' point'}, m'.stage other = .holding file' point' →
      other = daemon := by
    intro other file' point' hholding
    by_contra hne
    exact hothers other hne ⟨file', point', hholding⟩
  refine ⟨?_, ?_, ?_⟩
  · intro other file' point' hholding
    obtain rfl := honly hholding
    obtain ⟨rfl, -⟩ := Stage.holding.inj (hafter.symm.trans hholding)
    exact hlocks
  · intro other file' point' hholding hnamed
    obtain rfl := honly hholding
    obtain ⟨rfl, rfl⟩ := Stage.holding.inj (hafter.symm.trans hholding)
    exact hpidFile hnamed
  · rintro other another ⟨file₁, point₁, h₁⟩ ⟨file₂, point₂, h₂⟩
    rw [honly h₁, honly h₂]

theorem LockInv.step {m m' : Host} {daemon : ℕ} {move : Move} (h : LockInv m)
    (hst : m.perform daemon move = some m') (hsafe : m.LockSafe (daemon, move)) : LockInv m' := by
  have hframe : ∀ other, other ≠ daemon → m'.stage other = m.stage other := fun other hne =>
    Host.perform_stage_ne hst hne
  have hothers : (∀ other, other ≠ daemon → ¬ m.Instance other) →
      ∀ other, other ≠ daemon → ¬ m'.Instance other := by
    rintro hnone other hne ⟨file, point, hholding⟩
    exact hnone other hne ⟨file, point, (hframe other hne).symm.trans hholding⟩
  rcases Host.perform_moved hst with
    ⟨-, hafter, hlocks, hpidFile⟩ | ⟨rfl, hbefore, hfree, hafter, hlocks, hpidFile⟩ |
    ⟨hbefore, hafter, hlocks, hpidFile⟩ | ⟨hbefore, hafter, hlocks, hpidFile⟩
  · exact h.without hframe hafter (fun file other _ hlock => by rw [hlocks]; exact hlock) hpidFile
  · -- the lock is taken: any other daemon past its lock would have this very file locked
    rename_i file
    obtain ⟨hpath, hnamed⟩ := hsafe file rfl hbefore hfree
    refine LockInv.alone (hothers ?_) hafter (by rw [hlocks, Function.update_self])
      fun _ => hpidFile.trans hpath
    rintro other - ⟨kept, point, hholding⟩
    have hkept : m.pidFile = some kept := h.named hholding (hnamed other kept point hholding)
    obtain rfl : file = kept := Option.some.inj (hpath.symm.trans hkept)
    rw [h.locks hholding] at hfree
    cases hfree
  -- the daemon that holds the lock goes on: whoever else holds it is the same daemon
  · rename_i file point point'
    refine LockInv.alone (hothers ?_) hafter (by rw [hlocks]; exact h.locks hbefore) ?_
    · intro other hne hinst
      exact hne (h.atMostOne _ _ hinst ⟨_, _, hbefore⟩)
    · intro hnamed
      obtain ⟨hnamed, heq⟩ := hpidFile hnamed
      rw [heq]
      exact h.named hbefore hnamed
  -- the daemon ends, and its own lock goes with it
  · rename_i file point
    refine h.without hframe ?_ ?_ fun file hfile => by rw [hpidFile]; exact hfile
    · rintro ⟨file, point, hholding⟩
      simp [hafter] at hholding
    · intro file' other hne hlock
      have hne' : file' ≠ file := by
        rintro rfl
        exact hne (Option.some.inj (hlock.symm.trans (h.locks hbefore)))
      rw [hlocks, Function.update_of_ne hne', hlock]

/-- **Single instance, while the path keeps its meaning.**  As long as the lock is only taken on
the file at the pid path, and not before every daemon that removed the pid file has exited, at most
one daemon is between its lock and its exit. -/
theorem daemons_atMostOne {m₀ m : Host} (hidle : m₀.Idle)
    (hrun : (daemons.guard Host.LockSafe).Reach m₀ m) : m.AtMostOne := by
  have hinv : LockInv m := hrun.invariant (I := LockInv) hidle.lockInv
    fun _ _ _ _ hinv hst => hinv.step hst.2 hst.1
  exact hinv.atMostOne

/-! ### Runs -/

/-- A machine whose last daemon crashed and left its pid file and its socket. -/
def leftover : Host where
  pidFile := some 0
  texts := [some 1]
  socket := some 1
  locks _ := none
  stage _ := .absent

theorem leftover_idle : leftover.Idle := ⟨fun _ => rfl, fun _ => rfl⟩

/-- The steps of a daemon from its lock to its socket. -/
def comesUp (daemon : ℕ) : List (ℕ × Move) :=
  [(daemon, .flock), (daemon, .setLen), (daemon, .writePid), (daemon, .sweepSocket),
    (daemon, .bind)]

/-- Taking the lock of `file` is safe on a machine where it is at the pid path and locked, or no
daemon is past its lock. -/
theorem Host.LockSafe.of_path {m : Host} {daemon file : ℕ} (hpath : m.pidFile = some file)
    (hopened : m.stage daemon = .opened file) (hnone : m.locks file = none →
      ∀ other, ¬ m.Instance other) : m.LockSafe (daemon, .flock) := by
  intro file' _ hopened' hfree
  obtain rfl : file = file' := Stage.opened.inj (hopened.symm.trans hopened')
  refine ⟨hpath, fun other kept point hholding => ?_⟩
  exact absurd ⟨kept, point, hholding⟩ (hnone hfree other)

theorem Host.LockSafe.of_ne {m : Host} {event : ℕ × Move} (hne : event.2 ≠ .flock) :
    m.LockSafe event :=
  fun _ hflock => absurd hflock hne

/-- A daemon starts over the files of the crashed one and a second daemon is refused: the first is
the only one past its lock. -/
theorem leftover_atMostOne : ∃ m : Host, m.stage 7 = .holding 0 .listening ∧
    m.stage 8 = .refused 7 ∧ m.AtMostOne := by
  let opened := leftover.goes 7 (.opened 0)
  obtain ⟨held, hflock, up, hup, hend⟩ : ∃ held, opened.perform 7 .flock = some held ∧
      ∃ up, LTS.performs Host.moved held [(7, .setLen), (7, .writePid), (7, .sweepSocket),
        (7, .bind), (8, .openFile)] = some up ∧ ∃ denied, up.perform 8 .flock = some denied ∧
          ∃ m, denied.perform 8 .readPid = some m ∧ up.pidFile = some 0 ∧
            up.stage 8 = .opened 0 ∧ up.locks 0 = some 7 ∧ m.stage 7 = .holding 0 .listening ∧
              m.stage 8 = .refused 7 :=
    ⟨_, rfl, _, rfl, _, rfl, _, rfl, rfl, rfl, rfl, rfl, rfl⟩
  obtain ⟨denied, hdenied, m, hrefused, hpath, hopened, hlocked, hseven, height⟩ := hend
  have hnone : ∀ other, ¬ opened.Instance other := by
    rintro other ⟨kept, point, hholding⟩
    by_cases hother : other = 7
    · subst hother
      cases hholding
    · rw [Host.goes_stage_ne _ _ hother] at hholding
      cases hholding
  have hheld : (daemons.guard Host.LockSafe).Reach leftover held := by
    have h₁ : (daemons.guard Host.LockSafe).step leftover (7, .openFile) opened :=
      ⟨.of_ne (by decide), rfl⟩
    have h₂ : (daemons.guard Host.LockSafe).step opened (7, .flock) held :=
      ⟨.of_path rfl rfl fun _ => hnone, hflock⟩
    exact (LTS.Reach.refl.tail h₁).tail h₂
  have hrun : (daemons.guard Host.LockSafe).Reach leftover m := by
    have h₁ := hheld.trans (LTS.Reach.of_performs hup fun m event hmem =>
      .of_ne (by revert event; decide))
    have h₂ : (daemons.guard Host.LockSafe).step up (8, .flock) denied :=
      ⟨.of_path hpath hopened (by simp [hlocked]), hdenied⟩
    have h₃ : (daemons.guard Host.LockSafe).step denied (8, .readPid) m :=
      ⟨.of_ne (by decide), hrefused⟩
    exact (h₁.tail h₂).tail h₃
  exact ⟨m, hseven, height, daemons_atMostOne leftover_idle hrun⟩

theorem Host.exists_reach {m : Host} (moves : List (ℕ × Move)) {daemon other : ℕ}
    {file file' : ℕ} {point point' : Point} (hne : daemon ≠ other)
    (h : (LTS.performs Host.moved m moves).map (fun m => (m.stage daemon, m.stage other)) =
      some (.holding file point, .holding file' point')) :
    ∃ m', daemons.Reach m m' ∧ m'.stage daemon = .holding file point ∧
      m'.stage other = .holding file' point' ∧ ¬ m'.AtMostOne := by
  obtain ⟨m', hperforms, hstages⟩ := Option.map_eq_some_iff.1 h
  obtain ⟨hdaemon, hother⟩ := Prod.mk.inj hstages
  have hreach : (daemons.guard fun _ _ => True).Reach m m' :=
    LTS.Reach.of_performs hperforms fun _ _ _ => trivial
  exact ⟨m', hreach.of_guard, hdaemon, hother, fun h =>
    hne (h _ _ ⟨_, _, hdaemon⟩ ⟨_, _, hother⟩)⟩

/-- A daemon removes its pid file and has not exited when a second one starts and locks a new
file; or a second one has opened the file by then, locks it after the exit of the first, and a third
one starts and locks a new file.  Either way two daemons are past `lock_pid_file`. -/
theorem removedPidFile_two_instances :
    (∃ m, daemons.Reach leftover m ∧ m.stage 7 = .holding 0 .unnamed ∧
      m.stage 8 = .holding 1 .listening ∧ ¬ m.AtMostOne) ∧
    (∃ m, daemons.Reach leftover m ∧ m.stage 8 = .holding 0 .listening ∧
      m.stage 9 = .holding 1 .listening ∧ ¬ m.AtMostOne) := by
  refine ⟨Host.exists_reach ((7, .openFile) :: comesUp 7 ++ (7, .removePid) ::
    (8, .openFile) :: comesUp 8) (by decide) ?_, Host.exists_reach ((7, .openFile) :: comesUp 7 ++
    (8, .openFile) :: (7, .removePid) :: (7, .removeSocket) :: (7, .exit) :: comesUp 8 ++
    (9, .openFile) :: comesUp 9) (by decide) ?_⟩
  · rfl
  · rfl

end Roster
