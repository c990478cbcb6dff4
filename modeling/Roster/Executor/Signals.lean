import Roster.LTS.Basic
import Roster.Executor.Poll

/-!
# The signals of a cancel

Without systemd a job is known by one number: the pid of its `sh -c`, which is also the number of
its process group.  `ShellExecutor::cancel` sends SIGTERM to the group with that number and SIGKILL
5 s later; before it and in between, polls reap the process, and a number that no process and no
group has any more is one that the operating system may give to a new group.

`localJobs` is the system of the process groups of a machine and of what a daemon without scopes
does with the jobs it started: as a worker, which keeps an exit code as soon as it has reaped the
process, and as a controller, which applies the answer of a poll later.

`LocalJobs.signals_reach_job` : every signal goes to the group of the job it is for, or to no
process, exactly as long as no number is given out that the handle of a job not known to have ended
has, or that a cancel under way has still a signal for.
-/

namespace Roster

/-! ### Process groups -/

/-- How a process ended. -/
inductive ExitStatus
  | exited (code : Int32)
  | signaled (signal : ℕ)
  deriving DecidableEq, Repr

/-- What `waitpid` reports of it. -/
def ExitStatus.reported : ExitStatus → WaitStatus
  | .exited code => .exited code
  | .signaled signal => .signaled signal

/-- The process whose pid is the number of a group. -/
inductive Leader
  | alive
  /-- It has ended, and its parent has not asked how. -/
  | zombie (status : ExitStatus)
  | reaped
  deriving DecidableEq, Repr

/-- A process group. -/
structure ProcessGroup where
  pgid : UInt32
  leader : Leader
  /-- How many other processes are in it. -/
  others : ℕ
  /-- Its leader is a child of the daemon. -/
  child : Bool
  /-- The daemon may send it signals. -/
  permitted : Bool
  deriving DecidableEq, Repr

/-- What the processes of a group do, and what the parent of its leader does. -/
inductive GroupChange
  /-- A process joins, as the child of one of them does. -/
  | join
  /-- One of the other processes ends. -/
  | leave
  | exit (status : ExitStatus)
  /-- The leader is reaped by a parent that is not the daemon. -/
  | reap
  deriving DecidableEq, Repr

/-- The signals of a cancel. -/
inductive Signal
  | term
  | kill
  deriving DecidableEq, Repr

/-- The errors of `killpg`. -/
inductive KillError
  /-- ESRCH: no process group has the number. -/
  | noGroup
  /-- EPERM: the group is another user's. -/
  | notPermitted
  deriving DecidableEq, Repr

/-- Their texts. -/
def KillError.toString : KillError → String
  | .noGroup => "No such process (os error 3)"
  | .notPermitted => "Operation not permitted (os error 1)"

namespace ProcessGroup

/-- The number is in use: its process is there, or some process is in the group. -/
def present (group : ProcessGroup) : Bool :=
  decide (group.leader ≠ .reaped) || decide (0 < group.others)

/-- One change of a group that is there. -/
def change (group : ProcessGroup) : GroupChange → Option ProcessGroup
  | .join => if group.present then some { group with others := group.others + 1 } else none
  | .leave => if 0 < group.others then some { group with others := group.others - 1 } else none
  | .exit status =>
    if group.leader = .alive then some { group with leader := .zombie status } else none
  | .reap =>
    match group.leader with
    | .zombie _ => if group.child then none else some { group with leader := .reaped }
    | .alive | .reaped => none

variable (groups : List ProcessGroup)

/-- The place of the group that has the number now. -/
def find (pgid : UInt32) : Option ℕ :=
  groups.findIdx? fun group => decide (group.pgid = pgid) && group.present

/-- The operating system may give the number to a new process, and so to a new group; 0 and 1 are
never given out. -/
def free (pid : UInt32) : Bool := decide (1 < pid) && (find groups pid).isNone

/-- `killpg` : the place of the group that the signal goes to. -/
def killpg (pgid : UInt32) : Except KillError ℕ :=
  match find groups pgid with
  | none => .error .noGroup
  | some place => if groups[place]?.any permitted then .ok place else .error .notPermitted

/-- `waitpid` with `WNOHANG`: what it reports, and the groups with the process reaped if it has
ended. -/
def waitpid (pid : UInt32) : Except WaitError WaitStatus × List ProcessGroup :=
  match (find groups pid).bind fun place => groups[place]?.map fun group => (place, group) with
  | none => (.error .noChild, groups)
  | some (place, group) =>
    if group.child then
      match group.leader with
      | .alive => (.ok .stillAlive, groups)
      | .zombie status =>
        (.ok status.reported, groups.set place { group with leader := .reaped })
      | .reaped => (.error .noChild, groups)
    else (.error .noChild, groups)

end ProcessGroup

/-! ### The jobs of a daemon -/

/-- What the daemon keeps of a job it started. -/
inductive JobWatch
  /-- The worker's map has it. -/
  | worker (process : Process)
  /-- It is a running job of the controller's: its handle, which is cleared on exit, and what the
  last poll was answered while that is not applied. -/
  | execution (handle : Option JobHandle) (polled : Option (Except ExecutorError PollResult))

/-- Who starts a job here. -/
inductive Keeper
  | worker
  | controller
  deriving DecidableEq, Repr

/-- What is kept of a job that has just been started. -/
def Keeper.watch (keeper : Keeper) (handle : JobHandle) : JobWatch :=
  match keeper with
  | .worker => .worker ⟨handle, none⟩
  | .controller => .execution (some handle) none

/-- The answers of the operating system about a job without a scope. -/
def unscoped (waited : Except WaitError WaitStatus) : OsAnswers := ⟨waited, none, false, []⟩

namespace JobWatch

/-- The handle that a cancel would take: a Kill of a process whose exit is known signals nothing. -/
def handle? : JobWatch → Option JobHandle
  | .worker process => if process.exitCode.isSome then none else some process.handle
  | .execution handle _ => handle

/-- A poll.  The worker's, also for `running`, keeps the exit code under the same lock; the answer
of the controller's is still to be applied. -/
def poll (groups : List ProcessGroup) : JobWatch → Option (JobWatch × List ProcessGroup)
  | .worker process =>
    if process.exitCode.isSome then some (.worker process, groups)
    else
      let (waited, groups) := ProcessGroup.waitpid groups process.handle.hostPid
      some (.worker (process.checked (unscoped waited)), groups)
  | .execution (some handle) none =>
    let (waited, groups) := ProcessGroup.waitpid groups handle.hostPid
    some (.execution handle (some (ShellExecutor.poll handle (unscoped waited))), groups)
  | .execution _ _ => none

/-- `advance_running` applies the answer: an exit and a failed poll clear the handle. -/
def apply : JobWatch → Option JobWatch
  | .execution handle (some (.ok .running)) => some (.execution handle none)
  | .execution handle (some (.error (.unreachable _))) => some (.execution handle none)
  | .execution _ (some _) => some (.execution none none)
  | .execution _ none | .worker _ => none

end JobWatch

/-- A job that the daemon started. -/
structure StartedJob where
  watch : JobWatch
  /-- The place of its process group. -/
  place : ℕ

/-- What a cancel is for: a handle, and the place of the group of the job whose handle it is. -/
structure Aim where
  handle : JobHandle
  place : ℕ
  deriving DecidableEq

def StartedJob.aim? (job : StartedJob) : Option Aim :=
  job.watch.handle?.map fun handle => ⟨handle, job.place⟩

/-- Only the controller has the job's handle. -/
def StartedJob.isExecution (job : StartedJob) : Bool :=
  match job.watch with
  | .worker _ => false
  | .execution _ _ => true

/-- Calls of `ShellExecutor::cancel`, one after the other: those that are left, and the signal that
the first sends next. -/
structure CancelTask where
  caller : Keeper
  todo : List Aim
  next : Signal

/-- A signal that was sent: for the job whose group is at that place, and where it went. -/
structure Sent where
  place : ℕ
  signal : Signal
  result : Except KillError ℕ

/-- It went to the group of the job, or to no process. -/
def Sent.Proper (sent : Sent) : Prop := ∀ place, sent.result = .ok place → place = sent.place

/-- `ShellExecutor::cancel` of a job without a scope, once it has sent a signal: the one it sends
5 s later, or what it returns. -/
def ShellExecutor.cancel (next : Signal) (result : Except KillError ℕ) :
    Signal ⊕ Except ExecutorError Unit :=
  match next, result with
  | .term, .ok _ => .inl .kill
  | .term, .error error => .inr (.error (.killFailed error.toString))
  | .kill, _ => .inr (.ok ())

/-- What the worker answers a Kill; the controller ignores what a cancel returns. -/
def Keeper.responses (keeper : Keeper) (result : Except ExecutorError Unit) : List Response :=
  match keeper, result with
  | .worker, .ok () => [.killed]
  | .worker, .error error => [.error ("kill failed: " ++ error.toString)]
  | .controller, _ => []

/-- The process groups that there have been on a machine, in the order in which they were made, the
jobs that a daemon started there, and what its cancels have done. -/
structure LocalJobs where
  groups : List ProcessGroup
  jobs : List StartedJob
  tasks : List CancelTask
  sent : List Sent
  responses : List Response

/-- The steps of the machine and of the daemon. -/
inductive LocalEvent
  /-- The operating system gives the pid to a new process outside of the daemon, which makes a
  group of its own. -/
  | newGroup (pid : UInt32) (permitted : Bool)
  | change (place : ℕ) (change : GroupChange)
  | launch (keeper : Keeper) (pid : UInt32)
  | poll (job : ℕ)
  | apply (job : ℕ)
  | kill (job : ℕ)
  /-- A Cancel collects the handles of running jobs, or a qualification is past its timeout. -/
  | cancel (jobs : List ℕ)
  /-- The call of `cancel` that is under way in that task sends its next signal. -/
  | signal (task : ℕ)
  deriving DecidableEq, Repr

namespace LocalJobs

def init : LocalJobs := ⟨[], [], [], [], []⟩

/-- `ShellExecutor::launch`: the child makes a group of its own before it runs the command. -/
def launch (s : LocalJobs) (keeper : Keeper) (pid : UInt32) : LocalJobs :=
  { s with
    groups := s.groups ++ [⟨pid, .alive, 0, true, true⟩]
    jobs := s.jobs ++ [⟨keeper.watch ⟨pid, .process none none⟩, s.groups.length⟩] }

/-- `Worker::kill`. -/
def kill (s : LocalJobs) (job : StartedJob) : Option LocalJobs :=
  match job.watch with
  | .worker process =>
    if process.exitCode.isSome then some { s with responses := s.responses ++ [.killed] }
    else some { s with tasks := s.tasks ++ [⟨.worker, [⟨process.handle, job.place⟩], .term⟩] }
  | .execution _ _ => none

/-- `dispatch`, for a Cancel: the handles are collected under the lock of the runs. -/
def cancel (s : LocalJobs) (jobs : List ℕ) : LocalJobs :=
  { s with
    tasks := s.tasks ++ [⟨.controller, jobs.filterMap fun job =>
      (s.jobs[job]?.filter StartedJob.isExecution).bind StartedJob.aim?, .term⟩] }

/-- The first call of the task sends its next signal. -/
def signal (s : LocalJobs) (place : ℕ) (task : CancelTask) : Option LocalJobs :=
  match task.todo with
  | [] => none
  | aim :: rest =>
    let result := ProcessGroup.killpg s.groups aim.handle.hostPid
    let s : LocalJobs := { s with sent := s.sent ++ [⟨aim.place, task.next, result⟩] }
    match ShellExecutor.cancel task.next result with
    | .inl next => some { s with tasks := s.tasks.set place { task with next := next } }
    | .inr returned => some { s with
        tasks := s.tasks.set place { task with todo := rest, next := .term }
        responses := s.responses ++ task.caller.responses returned }

/-- One step. -/
def perform (s : LocalJobs) : LocalEvent → Option LocalJobs
  | .newGroup pid permitted =>
    if ProcessGroup.free s.groups pid then
      some { s with groups := s.groups ++ [⟨pid, .alive, 0, false, permitted⟩] }
    else none
  | .change place change => s.groups[place]?.bind fun group =>
      (group.change change).map fun group => { s with groups := s.groups.set place group }
  | .launch keeper pid =>
    if ProcessGroup.free s.groups pid then some (s.launch keeper pid) else none
  | .poll place => s.jobs[place]?.bind fun job => (job.watch.poll s.groups).map fun polled =>
      { s with groups := polled.2, jobs := s.jobs.set place { job with watch := polled.1 } }
  | .apply place => s.jobs[place]?.bind fun job => job.watch.apply.map fun watch =>
      { s with jobs := s.jobs.set place { job with watch := watch } }
  | .kill place => s.jobs[place]?.bind s.kill
  | .cancel jobs => some (s.cancel jobs)
  | .signal place => s.tasks[place]?.bind (s.signal place)

end LocalJobs

/-- The interleavings of the daemon's calls and of what happens on its machine. -/
def localJobs : LTS LocalJobs LocalEvent := .ofPerform LocalJobs.perform

/-! ### Who has a number -/

namespace ProcessGroup

variable {groups groups' : List ProcessGroup}

theorem find_eq_some {pgid : UInt32} {place : ℕ} (h : find groups pgid = some place) :
    ∃ group, groups[place]? = some group ∧ group.pgid = pgid ∧ group.present = true := by
  obtain ⟨hlt, hfound, -⟩ := List.findIdx?_eq_some_iff_getElem.1 h
  simp only [Bool.and_eq_true, decide_eq_true_eq] at hfound
  exact ⟨groups[place], List.getElem?_eq_getElem hlt, hfound⟩

/-- No group that is there has a number that may be given out. -/
theorem not_present_of_free {pid : UInt32} (h : free groups pid = true) {place : ℕ}
    {group : ProcessGroup} (hat : groups[place]? = some group) (hpgid : group.pgid = pid) :
    group.present = false := by
  rw [free, Bool.and_eq_true, Option.isNone_iff_eq_none] at h
  have hnot := List.findIdx?_eq_none_iff.1 h.2 group (List.mem_of_getElem? hat)
  simpa [hpgid] using hnot

/-- A group made under a free number is the one that has it. -/
theorem killpg_new {group : ProcessGroup} (hfree : free groups group.pgid = true)
    (hpresent : group.present = true) (hpermitted : group.permitted = true) :
    killpg (groups ++ [group]) group.pgid = .ok groups.length := by
  rw [free, Bool.and_eq_true, Option.isNone_iff_eq_none] at hfree
  have hfind : find (groups ++ [group]) group.pgid = some groups.length := by
    unfold find at hfree ⊢
    rw [List.findIdx?_append, hfree.2]
    simp [hpresent]
  simp [killpg, hfind, hpermitted]

theorem killpg_eq_ok {pgid : UInt32} {place : ℕ} (h : killpg groups pgid = .ok place) :
    ∃ group, groups[place]? = some group ∧ group.pgid = pgid ∧ group.present = true ∧
      group.permitted = true := by
  unfold killpg at h
  cases hfind : find groups pgid with
  | none => rw [hfind] at h; cases h
  | some found =>
    simp only [hfind] at h
    split at h
    · next hpermitted =>
      obtain rfl := Except.ok.inj h
      obtain ⟨group, hat, hpgid, hpresent⟩ := find_eq_some hfind
      rw [hat] at hpermitted
      exact ⟨group, hat, hpgid, hpresent, by simpa using hpermitted⟩
    · cases h

/-- No group is made: those that are there in `groups'` were there under the same number. -/
def Aged (groups groups' : List ProcessGroup) : Prop :=
  groups'.length = groups.length ∧ ∀ (place : ℕ) (group' : ProcessGroup),
    groups'[place]? = some group' → group'.present = true →
      ∃ group, groups[place]? = some group ∧ group.present = true ∧ group.pgid = group'.pgid ∧
        group.permitted = group'.permitted

theorem Aged.refl (groups : List ProcessGroup) : Aged groups groups :=
  ⟨rfl, fun _ group' hat hpresent => ⟨group', hat, hpresent, rfl, rfl⟩⟩

theorem Aged.set {place : ℕ} {group group' : ProcessGroup} (hat : groups[place]? = some group)
    (hpgid : group.pgid = group'.pgid) (hpermitted : group.permitted = group'.permitted)
    (hpresent : group'.present = true → group.present = true) :
    Aged groups (groups.set place group') := by
  refine ⟨List.length_set, fun other found hfound hthere => ?_⟩
  rw [List.getElem?_set] at hfound
  split at hfound
  · next heq =>
    subst heq
    split at hfound
    · obtain rfl := Option.some.inj hfound
      exact ⟨group, hat, hpresent hthere, hpgid, hpermitted⟩
    · cases hfound
  · exact ⟨found, hfound, hthere, rfl, rfl⟩

/-- What a change of a group leaves. -/
theorem change_spec {group group' : ProcessGroup} {c : GroupChange}
    (h : group.change c = some group') :
    group.pgid = group'.pgid ∧ group.permitted = group'.permitted ∧
      (group'.present = true → group.present = true) := by
  cases c with
  | join =>
    simp only [change] at h
    split at h
    · next hpresent => obtain rfl := Option.some.inj h; exact ⟨rfl, rfl, fun _ => hpresent⟩
    · cases h
  | leave =>
    simp only [change] at h
    split at h
    · next hothers =>
      obtain rfl := Option.some.inj h
      exact ⟨rfl, rfl, fun _ => by simp [present, hothers]⟩
    · cases h
  | exit status =>
    simp only [change] at h
    split at h
    · next halive =>
      obtain rfl := Option.some.inj h
      exact ⟨rfl, rfl, fun _ => by simp [present, halive]⟩
    · cases h
  | reap =>
    simp only [change] at h
    split at h
    · next status hzombie =>
      split at h
      · cases h
      · obtain rfl := Option.some.inj h
        exact ⟨rfl, rfl, fun _ => by simp [present, hzombie]⟩
    · cases h
    · cases h

/-- `waitpid` makes no group: it takes the zombie away. -/
theorem waitpid_aged (groups : List ProcessGroup) (pid : UInt32) :
    Aged groups (waitpid groups pid).2 := by
  unfold waitpid
  split
  · exact .refl groups
  · next place group hfound =>
    obtain ⟨found, -, hmap⟩ := Option.bind_eq_some_iff.1 hfound
    obtain ⟨_, hat, heq⟩ := Option.map_eq_some_iff.1 hmap
    obtain ⟨rfl, rfl⟩ := Prod.mk.inj heq
    split
    · split
      · exact .refl groups
      · next status hzombie =>
        exact .set hat rfl rfl fun _ => by simp [present, hzombie]
      · exact .refl groups
    · exact .refl groups

end ProcessGroup

/-! ### The aims of a daemon -/

open ProcessGroup

/-- A poll makes no group, and gives no handle that was not there. -/
theorem JobWatch.poll_spec {watch watch' : JobWatch} {groups groups' : List ProcessGroup}
    (h : watch.poll groups = some (watch', groups')) :
    Aged groups groups' ∧ ∀ handle, watch'.handle? = some handle → watch.handle? = some handle := by
  match watch with
  | .worker process =>
    simp only [poll] at h
    split at h
    · cases h
      exact ⟨.refl groups, fun _ hhandle => hhandle⟩
    · next hnone =>
      cases h
      refine ⟨waitpid_aged groups _, fun handle hhandle => ?_⟩
      have hkept (os : OsAnswers) : (process.checked os).handle = process.handle := by
        unfold Process.checked Process.check
        split
        · next after hcheck =>
          split at hcheck
          · split at hcheck <;> cases hcheck <;> rfl
          · cases hcheck; rfl
        · rfl
      simp only [handle?, Option.ite_none_left_eq_some, hkept] at hhandle
      simp [handle?, hnone, hhandle.2]
  | .execution (some handle) none =>
    cases h
    exact ⟨waitpid_aged groups _, fun _ hhandle => hhandle⟩
  | .execution none _ => cases h
  | .execution (some _) (some _) => cases h

theorem JobWatch.apply_spec {watch watch' : JobWatch} (h : watch.apply = some watch')
    (handle : JobHandle) (hhandle : watch'.handle? = some handle) :
    watch.handle? = some handle := by
  unfold JobWatch.apply at h
  split at h <;> cases h
  · exact hhandle
  · exact hhandle
  · cases hhandle

namespace LocalJobs

/-- What is left to signal: the handles that a cancel may still take, and those that the cancels
under way have taken. -/
def aims (s : LocalJobs) : List Aim :=
  s.jobs.filterMap StartedJob.aim? ++ s.tasks.flatMap CancelTask.todo

theorem mem_aims {s : LocalJobs} {aim : Aim} : aim ∈ s.aims ↔
    (∃ job ∈ s.jobs, job.aim? = some aim) ∨ ∃ task ∈ s.tasks, aim ∈ task.todo := by
  simp [aims]

/-- The aims of a state are among those of another if those of its jobs and of its tasks are. -/
theorem aims_mono {s s' : LocalJobs}
    (hjobs : ∀ job ∈ s'.jobs, ∀ aim, job.aim? = some aim → aim ∈ s.aims)
    (htasks : ∀ task ∈ s'.tasks, ∀ aim ∈ task.todo, aim ∈ s.aims) :
    ∀ aim ∈ s'.aims, aim ∈ s.aims := by
  intro aim haim
  rcases mem_aims.1 haim with ⟨job, hjob, haim⟩ | ⟨task, htask, haim⟩
  · exact hjobs job hjob aim haim
  · exact htasks task htask aim haim

theorem job_aims (s : LocalJobs) : ∀ job ∈ s.jobs, ∀ aim, job.aim? = some aim → aim ∈ s.aims :=
  fun job hjob _ haim => mem_aims.2 (.inl ⟨job, hjob, haim⟩)

theorem task_aims (s : LocalJobs) : ∀ task ∈ s.tasks, ∀ aim ∈ task.todo, aim ∈ s.aims :=
  fun task htask _ haim => mem_aims.2 (.inr ⟨task, htask, haim⟩)

/-- What is kept of a job may change as long as it gives no new handle. -/
theorem set_job_aims {s : LocalJobs} {place : ℕ} {job : StartedJob} {watch : JobWatch}
    (hat : s.jobs[place]? = some job)
    (hhandle : ∀ handle, watch.handle? = some handle → job.watch.handle? = some handle) :
    ∀ kept ∈ s.jobs.set place { job with watch := watch }, ∀ aim, kept.aim? = some aim →
      aim ∈ s.aims := by
  intro kept hkept aim haim
  rcases List.mem_or_eq_of_mem_set hkept with hmem | rfl
  · exact s.job_aims kept hmem aim haim
  · obtain ⟨handle, hnow, rfl⟩ := Option.map_eq_some_iff.1 haim
    refine s.job_aims job (List.mem_of_getElem? hat) _ ?_
    rw [StartedJob.aim?, hhandle handle hnow]
    rfl

/-- A new cancel has taken its handles from the jobs. -/
theorem new_task_aims {s : LocalJobs} {new : CancelTask} (hnew : ∀ aim ∈ new.todo, aim ∈ s.aims) :
    ∀ task ∈ s.tasks ++ [new], ∀ aim ∈ task.todo, aim ∈ s.aims := by
  intro task htask aim haim
  rcases List.mem_append.1 htask with hmem | hmem
  · exact s.task_aims task hmem aim haim
  · obtain rfl := List.mem_singleton.1 hmem
    exact hnew aim haim

/-- What one signal does: it is sent for the first aim of the task, which then is done, or has
SIGKILL left. -/
theorem signal_spec {s s' : LocalJobs} {place : ℕ} {task : CancelTask}
    (h : s.signal place task = some s') : ∃ aim rest, task.todo = aim :: rest ∧
      s'.groups = s.groups ∧ s'.jobs = s.jobs ∧
      s'.sent = s.sent ++ [⟨aim.place, task.next, killpg s.groups aim.handle.hostPid⟩] ∧
      ∃ after, s'.tasks = s.tasks.set place after ∧ (after.todo = rest ∨
        after.todo = task.todo ∧ task.next = .term ∧ after.next = .kill) := by
  unfold signal at h
  split at h
  · cases h
  · next aim rest htodo =>
    dsimp only at h
    split at h
    · next next hnext =>
      obtain rfl := Option.some.inj h
      refine ⟨aim, rest, htodo, rfl, rfl, rfl, _, rfl, .inr ⟨rfl, ?_⟩⟩
      unfold ShellExecutor.cancel at hnext
      split at hnext <;> cases hnext
      next hterm _ => exact ⟨hterm, rfl⟩
    · obtain rfl := Option.some.inj h
      exact ⟨aim, rest, htodo, rfl, rfl, rfl, _, rfl, .inl rfl⟩

end LocalJobs

/-- The number that a step gives to a group that the daemon may signal. -/
def LocalEvent.newPid : LocalEvent → Option UInt32
  | .newGroup pid permitted => if permitted then some pid else none
  | .launch _ pid => some pid
  | .change _ _ | .poll _ | .apply _ | .kill _ | .cancel _ | .signal _ => none

namespace LocalJobs

/-- The step gives out no number that a cancel may still signal. -/
def KeepsApart (s : LocalJobs) (event : LocalEvent) : Prop :=
  ∀ pid, event.newPid = some pid → ∀ aim ∈ s.aims, aim.handle.hostPid ≠ pid

/-- What a step can do: nothing about signals; make a group under a free number, maybe for a job;
send one signal. -/
theorem perform_cases {s s' : LocalJobs} {event : LocalEvent} (h : s.perform event = some s') :
    (Aged s.groups s'.groups ∧ s'.sent = s.sent ∧ (∀ aim ∈ s'.aims, aim ∈ s.aims) ∧
        event.newPid = none) ∨
      (∃ group : ProcessGroup, free s.groups group.pgid = true ∧ group.present = true ∧
        event.newPid = (if group.permitted then some group.pgid else none) ∧
        s'.groups = s.groups ++ [group] ∧ s'.sent = s.sent ∧ (∀ aim ∈ s.aims, aim ∈ s'.aims) ∧
        ∀ aim ∈ s'.aims, aim ∈ s.aims ∨ aim.handle.hostPid = group.pgid ∧
          aim.place = s.groups.length) ∨
      ∃ aim ∈ s.aims, ∃ signal, event.newPid = none ∧ s'.groups = s.groups ∧
        (∀ aim ∈ s'.aims, aim ∈ s.aims) ∧
        s'.sent = s.sent ++ [⟨aim.place, signal, killpg s.groups aim.handle.hostPid⟩] := by
  cases event with
  | newGroup pid permitted =>
    simp only [perform] at h
    split at h
    · next hfree =>
      obtain rfl := Option.some.inj h
      exact .inr (.inl ⟨_, hfree, rfl, rfl, rfl, rfl, fun _ haim => haim, fun _ haim => .inl haim⟩)
    · cases h
  | change place change =>
    obtain ⟨group, hat, hchange⟩ := Option.bind_eq_some_iff.1 h
    obtain ⟨after, hafter, rfl⟩ := Option.map_eq_some_iff.1 hchange
    obtain ⟨hpgid, hpermitted, hpresent⟩ := change_spec hafter
    exact .inl ⟨.set hat hpgid hpermitted hpresent, rfl, fun aim haim => haim, rfl⟩
  | launch keeper pid =>
    simp only [perform] at h
    split at h
    · next hfree =>
      obtain rfl := Option.some.inj h
      refine .inr (.inl ⟨_, hfree, rfl, rfl, rfl, rfl, ?_, fun aim haim => ?_⟩)
      -- the old aims are kept, and the new job brings its own
      · refine aims_mono (fun job hjob => ?_) (s.launch keeper pid).task_aims
        exact (s.launch keeper pid).job_aims job (List.mem_append_left _ hjob)
      rcases mem_aims.1 haim with ⟨job, hjob, hnow⟩ | ⟨task, htask, haim⟩
      · rcases List.mem_append.1 hjob with hold | hnew
        · exact .inl (s.job_aims job hold aim hnow)
        · obtain rfl := List.mem_singleton.1 hnew
          cases keeper <;> cases hnow <;> exact .inr ⟨rfl, rfl⟩
      · exact .inl (s.task_aims task htask aim haim)
    · cases h
  | poll place =>
    obtain ⟨job, hat, hpoll⟩ := Option.bind_eq_some_iff.1 h
    obtain ⟨⟨watch, groups⟩, hpolled, rfl⟩ := Option.map_eq_some_iff.1 hpoll
    obtain ⟨haged, hhandle⟩ := JobWatch.poll_spec hpolled
    exact .inl ⟨haged, rfl, aims_mono (set_job_aims hat hhandle) s.task_aims, rfl⟩
  | apply place =>
    obtain ⟨job, hat, happly⟩ := Option.bind_eq_some_iff.1 h
    obtain ⟨watch, happlied, rfl⟩ := Option.map_eq_some_iff.1 happly
    exact .inl ⟨.refl _, rfl,
      aims_mono (set_job_aims hat (JobWatch.apply_spec happlied)) s.task_aims, rfl⟩
  | kill place =>
    obtain ⟨job, hat, hkill⟩ := Option.bind_eq_some_iff.1 h
    unfold kill at hkill
    split at hkill
    · next process hworker =>
      split at hkill
      · cases hkill
        exact .inl ⟨.refl _, rfl, fun _ haim => haim, rfl⟩
      -- no exit is known, so the handle is one that a cancel may take
      · next hnone =>
        cases hkill
        refine .inl ⟨.refl _, rfl, aims_mono s.job_aims (new_task_aims ?_), rfl⟩
        intro aim haim
        obtain rfl := List.mem_singleton.1 haim
        refine s.job_aims job (List.mem_of_getElem? hat) _ ?_
        simp [StartedJob.aim?, hworker, JobWatch.handle?, hnone]
    · cases hkill
  | cancel jobs =>
    obtain rfl := Option.some.inj h
    refine .inl ⟨.refl _, rfl, aims_mono s.job_aims (new_task_aims ?_), rfl⟩
    intro aim haim
    obtain ⟨place, -, haim⟩ := List.mem_filterMap.1 haim
    obtain ⟨job, hfound, haim⟩ := Option.bind_eq_some_iff.1 haim
    exact s.job_aims job (List.mem_of_getElem? (Option.filter_eq_some_iff.1 hfound).1) aim haim
  | signal place =>
    obtain ⟨task, hat, hsignal⟩ := Option.bind_eq_some_iff.1 h
    obtain ⟨aim, rest, htodo, hgroups, hjobs, hsent, after, htasks, hleft⟩ := signal_spec hsignal
    have htask : task ∈ s.tasks := List.mem_of_getElem? hat
    have haim : aim ∈ s.aims := s.task_aims task htask aim (htodo ▸ List.mem_cons_self)
    refine .inr (.inr ⟨aim, haim, _, rfl, hgroups, ?_, hsent⟩)
    refine aims_mono (hjobs ▸ s.job_aims) fun other hother kept hkept => ?_
    rcases List.mem_or_eq_of_mem_set (htasks ▸ hother) with hmem | rfl
    · exact s.task_aims other hmem kept hkept
    -- SIGKILL is for the same aim, or the call is over
    · rcases hleft with hrest | ⟨hsame, -⟩
      · exact s.task_aims task htask kept (htodo ▸ List.mem_cons_of_mem _ (hrest ▸ hkept))
      · exact s.task_aims task htask kept (hsame ▸ hkept)

/-! ### Where the signals go -/

/-- The number of the handle leads to the group of the job, or to none that the daemon may
signal. -/
def Aim.Named (groups : List ProcessGroup) (aim : Aim) : Prop :=
  ∀ (place : ℕ) (group : ProcessGroup), groups[place]? = some group → group.present = true →
    group.permitted = true → group.pgid = aim.handle.hostPid → place = aim.place

/-- Every signal went right, and every one that is still to be sent will if it is sent now. -/
structure Directed (s : LocalJobs) : Prop where
  named : ∀ aim ∈ s.aims, Aim.Named s.groups aim
  proper : ∀ sent ∈ s.sent, sent.Proper

theorem directed_init : init.Directed := ⟨by simp [aims, init], by simp [init]⟩

theorem Aim.Named.aged {groups groups' : List ProcessGroup} {aim : Aim}
    (h : Aim.Named groups aim) (haged : Aged groups groups') : Aim.Named groups' aim := by
  intro place group' hat hpresent hpermitted hpgid
  obtain ⟨group, hbefore, hthere, hsame, hallowed⟩ := haged.2 place group' hat hpresent
  exact h place group hbefore hthere (hallowed.trans hpermitted) (hsame.trans hpgid)

/-- A signal that is sent by a number that leads to the job's group goes right. -/
theorem Aim.Named.proper {groups : List ProcessGroup} {aim : Aim} (h : Aim.Named groups aim)
    (signal : Signal) : Sent.Proper ⟨aim.place, signal, killpg groups aim.handle.hostPid⟩ := by
  intro place hok
  obtain ⟨group, hat, hpgid, hpresent, hpermitted⟩ := killpg_eq_ok hok
  exact h place group hat hpresent hpermitted hpgid

/-- A step that keeps the numbers apart keeps the signals directed. -/
theorem Directed.step {s s' : LocalJobs} {event : LocalEvent} (hd : s.Directed)
    (hapart : s.KeepsApart event) (h : s.perform event = some s') : s'.Directed := by
  rcases perform_cases h with ⟨haged, hsent, haims, -⟩ |
    ⟨group, hfree, -, hpid, hgroups, hsent, -, haims⟩ |
    ⟨aim, haim, signal, -, hgroups, haims, hsent⟩
  · exact ⟨fun aim haim => (hd.named aim (haims aim haim)).aged haged, hsent ▸ hd.proper⟩
  · refine ⟨fun aim haim place found hat hpresent hpermitted hpgid => ?_, hsent ▸ hd.proper⟩
    rw [hgroups] at hat
    -- a group that was there, or the one that was made
    rcases lt_or_ge place s.groups.length with hlt | hge
    · rw [List.getElem?_append_left hlt] at hat
      rcases haims aim haim with hold | ⟨hnew, -⟩
      · exact hd.named aim hold place found hat hpresent hpermitted hpgid
      · -- the number of the new job was free
        exact absurd hpresent
          (by simp [not_present_of_free hfree hat (hpgid.trans hnew)])
    · rw [List.getElem?_append_right hge, List.getElem?_singleton] at hat
      split at hat
      · next hlast =>
        obtain rfl := Option.some.inj hat
        rcases haims aim haim with hold | ⟨-, hplace⟩
        · rw [if_pos hpermitted] at hpid
          exact absurd hpgid.symm (hapart _ hpid aim hold)
        · omega
      · cases hat
  · refine ⟨fun aim haim => hgroups ▸ hd.named aim (haims aim haim), fun sent hmem => ?_⟩
    rcases List.mem_append.1 (hsent ▸ hmem) with hold | hnew
    · exact hd.proper sent hold
    · obtain rfl := List.mem_singleton.1 hnew
      exact (hd.named aim haim).proper signal

theorem directed_of_reach {s : LocalJobs} (h : (localJobs.guard KeepsApart).Reach init s) :
    s.Directed :=
  h.invariant directed_init fun _ _ _ _ hd hstep => hd.step hstep.1 hstep.2

/-! ### A number that is given out too early -/

/-- The groups of the jobs are there from the launch on. -/
theorem aims_lt {s : LocalJobs} (h : localJobs.Reach init s) :
    ∀ aim ∈ s.aims, aim.place < s.groups.length := by
  refine h.invariant (I := fun s => ∀ aim ∈ s.aims, aim.place < s.groups.length)
    (by simp [aims, init]) fun s event s' _ hlt hstep => ?_
  rcases perform_cases hstep with ⟨haged, -, haims, -⟩ |
    ⟨group, -, -, -, hgroups, -, -, haims⟩ | ⟨_, _, _, -, hgroups, haims, -⟩
  · exact fun aim haim => haged.1 ▸ hlt aim (haims aim haim)
  · intro aim haim
    rw [hgroups, List.length_append, List.length_singleton]
    rcases haims aim haim with hold | ⟨-, hplace⟩
    · exact Nat.lt_succ_of_lt (hlt aim hold)
    · omega
  · exact fun aim haim => hgroups ▸ hlt aim (haims aim haim)

theorem reach_one {s s' : LocalJobs} (event : LocalEvent) (h : s.perform event = some s') :
    localJobs.Reach s s' := .tail .refl h

/-- A task comes to the end of its first call: a signal was sent for its aim. -/
theorem reach_rest {s : LocalJobs} {place : ℕ} {task : CancelTask} {first : Aim}
    {rest : List Aim} (hat : s.tasks[place]? = some task) (htodo : task.todo = first :: rest) :
    ∃ s', localJobs.Reach s s' ∧ s'.groups = s.groups ∧
      (∃ signal, ⟨first.place, signal, killpg s.groups first.handle.hostPid⟩ ∈ s'.sent) ∧
      ∃ after, s'.tasks[place]? = some after ∧ after.todo = rest := by
  have hsignals {s : LocalJobs} {task : CancelTask} (hat : s.tasks[place]? = some task)
      (htodo : task.todo = first :: rest) : ∃ s', localJobs.Reach s s' ∧ s'.groups = s.groups ∧
        s'.sent = s.sent ++ [⟨first.place, task.next, killpg s.groups first.handle.hostPid⟩] ∧
        ∃ after, s'.tasks[place]? = some after ∧ (after.todo = rest ∨
          after.todo = task.todo ∧ task.next = .term ∧ after.next = .kill) := by
    obtain ⟨s', h⟩ : ∃ s', s.signal place task = some s' := by
      unfold signal
      rw [htodo]
      dsimp only
      split <;> exact ⟨_, rfl⟩
    obtain ⟨aim, left, htodo', hgroups, -, hsent, after, htasks, hleft⟩ := signal_spec h
    obtain ⟨rfl, rfl⟩ := List.cons.inj (htodo.symm.trans htodo')
    obtain ⟨hlt, -⟩ := List.getElem?_eq_some_iff.1 hat
    refine ⟨s', reach_one (.signal place) ?_, hgroups, hsent, after, ?_, hleft⟩
    · simp only [perform, hat, Option.bind_some, h]
    · rw [htasks, List.getElem?_set_self hlt]
  obtain ⟨s₁, hreach, hgroups, hsent, after, hafter, hrest | ⟨hsame, -, hkill⟩⟩ :=
    hsignals hat htodo
  · exact ⟨s₁, hreach, hgroups, ⟨task.next, by simp [hsent]⟩, after, hafter, hrest⟩
  · -- SIGKILL is left
    obtain ⟨s₂, hreach₂, hgroups₂, hsent₂, last, hlast, hrest | ⟨-, hterm, -⟩⟩ :=
      hsignals hafter (hsame.trans htodo)
    · exact ⟨s₂, hreach.trans hreach₂, hgroups₂.trans hgroups, ⟨task.next, by simp [hsent₂, hsent]⟩,
        last, hlast, hrest⟩
    · rw [hkill] at hterm
      cases hterm

/-- A task comes to each of its calls. -/
theorem reach_signal {aim : Aim} {place : ℕ} {todo : List Aim} (haim : aim ∈ todo) :
    ∀ {s : LocalJobs} {task : CancelTask}, s.tasks[place]? = some task → task.todo = todo →
      ∃ s', localJobs.Reach s s' ∧
        ∃ signal, ⟨aim.place, signal, killpg s.groups aim.handle.hostPid⟩ ∈ s'.sent := by
  induction todo with
  | nil => cases haim
  | cons first rest ih =>
    intro s task hat htodo
    obtain ⟨s₁, hreach, hgroups, hsent, after, hafter, hrest⟩ := reach_rest hat htodo
    rcases List.mem_cons.1 haim with rfl | hlater
    · exact ⟨s₁, hreach, hsent⟩
    · obtain ⟨s₂, hreach₂, hsent₂⟩ := ih hlater hafter hrest
      exact ⟨s₂, hreach.trans hreach₂, hgroups ▸ hsent₂⟩

/-- Every handle that may still be signalled is in a task, or a cancel may take it into one. -/
theorem reach_task {s : LocalJobs} {aim : Aim} (haim : aim ∈ s.aims) :
    ∃ s', localJobs.Reach s s' ∧ s'.groups = s.groups ∧
      ∃ (place : ℕ) (task : CancelTask), s'.tasks[place]? = some task ∧ aim ∈ task.todo := by
  rcases mem_aims.1 haim with ⟨job, hjob, haim⟩ | ⟨task, htask, haim⟩
  · obtain ⟨place, hat⟩ := List.mem_iff_getElem?.1 hjob
    obtain ⟨handle, hhandle, rfl⟩ := Option.map_eq_some_iff.1 haim
    cases hwatch : job.watch with
    | worker process =>
      rw [hwatch, JobWatch.handle?] at hhandle
      obtain ⟨hnone, hsame⟩ := Option.ite_none_left_eq_some.1 hhandle
      obtain rfl := Option.some.inj hsame
      have hkill : s.perform (.kill place) = some { s with
          tasks := s.tasks ++ [⟨.worker, [⟨process.handle, job.place⟩], .term⟩] } := by
        simp only [perform, hat, Option.bind_some, kill, hwatch, if_neg hnone]
      exact ⟨_, reach_one _ hkill, rfl, s.tasks.length, _, List.getElem?_concat_length,
        List.mem_singleton_self _⟩
    | execution kept polled =>
      rw [hwatch, JobWatch.handle?] at hhandle
      subst hhandle
      refine ⟨_, reach_one (.cancel [place]) rfl, rfl, s.tasks.length, ?_⟩
      simp [cancel, hat, Option.filter, StartedJob.isExecution, StartedJob.aim?, hwatch,
        JobWatch.handle?]
  · obtain ⟨place, hat⟩ := List.mem_iff_getElem?.1 htask
    exact ⟨s, .refl, rfl, place, task, hat, haim⟩

/-- A number that is given out while a cancel may still signal it leads a signal astray. -/
theorem stray_of_reuse {s s' : LocalJobs} {event : LocalEvent} (hreach : localJobs.Reach init s)
    (h : s.perform event = some s') (hreuse : ¬ s.KeepsApart event) :
    ∃ s'', localJobs.Reach s' s'' ∧ ∃ sent ∈ s''.sent, ¬ sent.Proper := by
  unfold KeepsApart at hreuse
  push Not at hreuse
  obtain ⟨pid, hpid, aim, haim, hsame⟩ := hreuse
  rcases perform_cases h with ⟨-, -, -, hnone⟩ |
    ⟨group, hfree, hpresent, hnew, hgroups, -, hkept, -⟩ | ⟨-, -, -, hnone, -⟩
  · rw [hnone] at hpid
    cases hpid
  · rw [hnew, Option.ite_none_right_eq_some, Option.some.injEq] at hpid
    obtain ⟨hpermitted, hgiven⟩ := hpid
    -- a cancel of the old job comes to a signal while the new group has the number
    obtain ⟨s₁, hreach₁, hgroups₁, place, task, hat, htodo⟩ := reach_task (hkept aim haim)
    obtain ⟨s₂, hreach₂, signal, hsent⟩ := reach_signal htodo hat rfl
    refine ⟨s₂, hreach₁.trans hreach₂, _, hsent, fun hproper => ?_⟩
    have hwrong : killpg s₁.groups aim.handle.hostPid = .ok s.groups.length := by
      rw [hgroups₁, hgroups, hsame, ← hgiven]
      exact killpg_new hfree hpresent hpermitted
    have hlt := aims_lt hreach aim haim
    have hplace := hproper _ hwrong
    exact absurd hplace (by simpa using hlt.ne')
  · rw [hnone] at hpid
    cases hpid

/-- **Where the signals of a cancel go.**  In every run in which no number is given to a new group
while the handle of a job that is not known to have ended has it, or a cancel under way has a
signal left for it, every signal goes to the group of the job it was sent for or to no process; and
where a number is given out so, the run can go on to a signal that goes to the new group. -/
theorem signals_reach_job {s : LocalJobs} (h : (localJobs.guard KeepsApart).Reach init s) :
    (∀ sent ∈ s.sent, sent.Proper) ∧
      ∀ event s', s.perform event = some s' → ¬ s.KeepsApart event →
        ∃ s'', localJobs.Reach s' s'' ∧ ∃ sent ∈ s''.sent, ¬ sent.Proper :=
  ⟨(directed_of_reach h).proper, fun _ _ hstep hreuse => stray_of_reuse h.of_guard hstep hreuse⟩

theorem keepsApart_of_none {s : LocalJobs} {event : LocalEvent} (h : event.newPid = none) :
    s.KeepsApart event := by
  intro pid hpid
  rw [h] at hpid
  cases hpid

/-- A job that the worker started and that a Kill is under way for. -/
def killed : LocalJobs where
  groups := [⟨4711, .alive, 0, true, true⟩]
  jobs := [⟨.worker ⟨⟨4711, .process none none⟩, none⟩, 0⟩]
  tasks := []
  sent := []
  responses := []

/-- It gets SIGTERM, ends, and is reaped by a poll while the Kill waits. -/
def endsEarly : List LocalEvent :=
  [.kill 0, .signal 0, .change 0 (.exit (.signaled 15)), .poll 0]

/-- The Kill has SIGKILL left for a number that is free. -/
def waiting : LocalJobs where
  groups := [⟨4711, .reaped, 0, true, true⟩]
  jobs := [⟨.worker ⟨⟨4711, .process none none⟩, some (-1)⟩, 0⟩]
  tasks := [⟨.worker, [⟨⟨4711, .process none none⟩, 0⟩], .kill⟩]
  sent := [⟨0, .term, .ok 0⟩]
  responses := []

theorem reach_waiting : (localJobs.guard KeepsApart).Reach init waiting := by
  have hlaunch : (localJobs.guard KeepsApart).Reach init killed :=
    .tail (l := .launch .worker 4711) .refl ⟨fun _ _ _ haim => (List.not_mem_nil haim).elim, rfl⟩
  have hnone : ∀ event ∈ endsEarly, LocalEvent.newPid event = none := by decide
  have hends : LTS.performs perform killed endsEarly = some waiting := rfl
  exact hlaunch.trans (.of_performs hends fun _ _ hmem => keepsApart_of_none (hnone _ hmem))

/-- The group that gets the number then. -/
theorem signals_reach_job_waiting : (∀ sent ∈ waiting.sent, sent.Proper) ∧
    ∃ s s', waiting.perform (.newGroup 4711 true) = some s ∧ localJobs.Reach s s' ∧
      ∃ sent ∈ s'.sent, ¬ sent.Proper := by
  obtain ⟨hproper, hastray⟩ := signals_reach_job reach_waiting
  obtain ⟨s', hreach, hsent⟩ := hastray (.newGroup 4711 true) _ rfl fun hapart =>
    hapart 4711 rfl ⟨⟨4711, .process none none⟩, 0⟩
      (task_aims _ _ (List.mem_singleton_self _) _ (List.mem_singleton_self _)) rfl
  exact ⟨hproper, _, s', rfl, hreach, hsent⟩

/-- SIGKILL for the job goes to a group that got its number. -/
theorem signal_astray : ¬ ∀ s, localJobs.Reach init s → ∀ sent ∈ s.sent, sent.Proper := by
  intro h
  have hreused : localJobs.Reach waiting _ := reach_one (.newGroup 4711 true) rfl
  have hkilled : localJobs.Reach _ _ := hreused.tail (l := .signal 0) rfl
  have hproper := h _ (reach_waiting.of_guard.trans hkilled) ⟨0, .kill, .ok 1⟩
    (List.mem_append_right _ (List.mem_singleton_self _))
  exact absurd (hproper 1 rfl) (by decide)

end LocalJobs

end Roster
