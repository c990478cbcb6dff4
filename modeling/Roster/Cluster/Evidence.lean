import Roster.Cluster.Basic
import Roster.Executor.Poll
import Roster.Scheduler.Executions

/-!
# What a success rests on

The controller marks a job Succeeded on the answer of one poll: of the operating system for a job on
this machine, and for one on another node of the worker there, which answers what it keeps of an
earlier look.  `Polls` is the scheduler together with what the workers keep, their replies to Polls,
and everything the operating systems have answered so far; `polls` is the system, in which workers
find their jobs, check them, forget them and answer in any order.

Between two steps every exit code 0 on its way to a job has been answered by the operating system of
its node (`Polls.Inv`), as long as no job without a scope is polled that `waitpid` does not know,
and so every success has (`success_evidence`).
-/

namespace Roster

/-- What the operating system of a node answered about a job. -/
structure Observation where
  node : ℕ
  key : Key
  handle : JobHandle
  os : OsAnswers
  deriving DecidableEq

/-- A controller and the workers that it polls. -/
structure Polls where
  sched : SchedulerState
  /-- Each node's `processes`. -/
  processes : ℕ → Key → Option Process
  /-- The replies of the nodes to Polls. -/
  replies : List (ℕ × Key × Response)
  /-- What the operating systems answered. -/
  seen : List Observation

/-- How the launch of a member returned. -/
inductive LaunchReturn
  | here (launch : ShellLaunch) (scope exitFile : Option String)
  /-- On another node, connected or not, with the reply if there was one. -/
  | remote (online : Bool) (connected : Except String Unit) (reply : Except String Response)

/-- The steps of a controller and of the workers it polls. -/
inductive PollsEvent
  /-- A step of the scheduler in which no executor returns. -/
  | scheduler (label : Label)
  /-- The launches of a task are over. -/
  | launched (returns : List LaunchReturn)
  /-- A worker starts a job, or finds one by its scope or exit file. -/
  | found (node : ℕ) (key : Key) (handle : JobHandle)
  /-- `running` comes to the job. -/
  | checked (node : ℕ) (key : Key) (os : OsAnswers)
  /-- A worker serves a Poll. -/
  | served (node : ℕ) (key : Key) (os : OsAnswers)
  /-- A node's daemon starts again, and has forgotten its jobs. -/
  | restarted (node : ℕ)
  /-- The next poll is on this machine. -/
  | pollHere (os : OsAnswers) (tail : Option String)
  /-- The next poll is on another node: a reply to a Poll, an error, or none. -/
  | poll (online : Bool) (connected : Except String Unit) (reply : Except String Response)
      (tail : Option String)

/-- What the launch of a member on that node returned to `advance_queued`. -/
def LaunchReturn.result (cfg : Config) (key : JobKey) (node : ℕ) :
    LaunchReturn → Option (Except ExecutorError JobHandle)
  | .here launch scope exitFile =>
    if cfg.isRemote node = some false then some (launch.result scope exitFile) else none
  | .remote online connected reply =>
    if cfg.isRemote node = some true then
      some (match RemoteExecutor.connect online connected with
        | .error error => .error error
        | .ok () => RemoteExecutor.launch key.1 key.2 reply)
    else none

/-- What the launches of a task returned, member by member. -/
def launchResults (cfg : Config) (key : JobKey) :
    List (ℕ × Allocation) → List LaunchReturn → Option (List (Except ExecutorError JobHandle))
  | [], [] => some []
  | (node, _) :: members, launch :: returns => do
    let result ← launch.result cfg key node
    let results ← launchResults cfg key members returns
    return result :: results
  | _, _ => none

/-- The answers of an operating system in a step. -/
def PollsEvent.asks : PollsEvent → Option OsAnswers
  | .checked _ _ os | .served _ _ os | .pollHere os _ => some os
  | _ => none

namespace Polls

/-- A step of the scheduler, unless it panics. -/
def schedule (cfg : Config) (p : Polls) (label : Label) : Option Polls :=
  match p.sched.perform cfg label with
  | some (.ok sched) => some { p with sched := sched }
  | _ => none

/-- `processes.insert(key, process)`. -/
def insert (p : Polls) (node : ℕ) (key : Key) (process : Process) : Polls :=
  { p with
    processes := Function.update p.processes node
      (Function.update (p.processes node) key (some process)) }

def observe (p : Polls) (node : ℕ) (key : Key) (handle : JobHandle) (os : OsAnswers) : Polls :=
  { p with seen := p.seen ++ [⟨node, key, handle, os⟩] }

/-- A worker checks its process; the operating system is asked unless the exit is known. -/
def check (p : Polls) (node : ℕ) (key : Key) (process : Process) (os : OsAnswers) : Polls :=
  if process.exitCode = none then
    (p.observe node key process.handle os).insert node key (process.checked os)
  else p.insert node key (process.checked os)

def answer (p : Polls) (node : ℕ) (key : Key) (response : Response) : Polls :=
  { p with replies := p.replies ++ [(node, key, response)] }

/-- The job that is polled next. -/
def nextPoll (p : Polls) : Option RunningJob :=
  match p.sched.phase with
  | .polling (job :: _) _ => some job
  | _ => none

/-- That reply can come back for the Poll of a job: one of the worker's, or an error. -/
def canReply (p : Polls) (job : RunningJob) : Except String Response → Bool
  | .ok (.error _) | .error _ => true
  | .ok response =>
    match RemoteExecutor.key job.handle with
    | .ok key => p.replies.contains (job.node, key, response)
    | .error _ => true

/-- What a poll on another node returns, when that reply comes back. -/
def remotePoll (handle : JobHandle) (online : Bool) (connected : Except String Unit)
    (reply : Except String Response) : Except ExecutorError PollResult := do
  let _ ← RemoteExecutor.key handle
  RemoteExecutor.connect online connected
  RemoteExecutor.poll reply

/-- One step. -/
def perform (cfg : Config) (p : Polls) : PollsEvent → Option Polls
  | .scheduler label => if label.isReturn then none else p.schedule cfg label
  | .launched returns =>
    match p.sched.phase with
    | .launching (task :: _) _ =>
      (launchResults cfg task.key task.placement returns).bind fun results =>
        p.schedule cfg (.launched results)
    | _ => none
  | .found node key handle =>
    match p.processes node key with
    | some _ => none
    | none => some (p.insert node key ⟨handle, none⟩)
  | .checked node key os => (p.processes node key).map fun process => p.check node key process os
  | .served node key os =>
    match p.processes node key with
    | some process => some ((p.check node key process os).answer node key (process.reply os))
    | none => some (p.answer node key (.error "unknown execution"))
  | .restarted node =>
    some { p with processes := Function.update p.processes node fun _ => none }
  | .pollHere os tail => p.nextPoll.bind fun job =>
    if cfg.isRemote job.node = some false then
      (p.observe job.node job.key job.handle os).schedule cfg
        (.polled (ShellExecutor.poll job.handle os) tail)
    else none
  | .poll online connected reply tail => p.nextPoll.bind fun job =>
    if cfg.isRemote job.node = some true ∧ p.canReply job reply = true then
      p.schedule cfg (.polled (remotePoll job.handle online connected reply) tail)
    else none

/-- No job without a scope is polled whose process is no child of its node's daemon any more. -/
def NoneReaped (p : Polls) : PollsEvent → Prop
  | .checked node key os | .served node key os => ∀ process, p.processes node key = some process →
      process.exitCode = none → ¬ ShellExecutor.Reaped process.handle os
  | .pollHere os _ => ∀ job, p.nextPoll = some job → ¬ ShellExecutor.Reaped job.handle os
  | _ => True

/-- The operating system of that node has answered that the job ended with code 0. -/
def Evidence (p : Polls) (node : ℕ) (key : Key) : Prop :=
  ∃ seen ∈ p.seen, seen.node = node ∧ seen.key = key ∧
    ShellExecutor.Evidence seen.handle seen.os

/-- Every poll that answered exit code 0, and every success that was not there at the start, has
evidence. -/
def SucceedsOnEvidence (start : SchedulerState) (p : Polls) : Prop :=
  (∀ todo entries, p.sched.phase = .polling todo entries → ∀ entry ∈ entries,
    entry.result = .ok (.exited 0) → ∃ node, p.Evidence node entry.key) ∧
  ∀ key job, findJob p.sched.daemon.runs key = some job → job.state = .succeeded →
    (∃ job₀, findJob start.daemon.runs key = some job₀ ∧ job₀.state = .succeeded) ∨
      ∃ node, p.Evidence node key

/-- An execution on another node goes by the name that the controller has for its job. -/
def Named (cfg : Config) (key : JobKey) (execution : Execution) : Prop :=
  cfg.isRemote execution.node = some true → ∀ handle, execution.handle = some handle →
    handle.backend = .remote key.1 key.2

/-- The workers keep and have answered exit code 0 only on evidence. -/
structure Founded (p : Polls) : Prop where
  kept : ∀ node key process, p.processes node key = some process → process.exitCode = some 0 →
    p.Evidence node key
  replies : ∀ node key, (node, key, .polled (some 0)) ∈ p.replies → p.Evidence node key

/-- No worker knows a job yet, and nothing was answered. -/
def start (sched : SchedulerState) : Polls := ⟨sched, fun _ _ => none, [], []⟩

/-- Where a controller starts: nothing is being launched or polled, and every job on another node
goes by its name there. -/
structure Begins (cfg : Config) (p : Polls) : Prop where
  jobs : JobsInv p.sched
  launching : ∀ tasks outcomes, p.sched.phase ≠ .launching tasks outcomes
  polling : ∀ todo entries, p.sched.phase ≠ .polling todo entries
  named : ∀ key job, findJob p.sched.daemon.runs key = some job → ∀ execution ∈ job.executions,
    Named cfg key execution
  founded : p.Founded

/-- What holds between any two steps. -/
structure Inv (cfg : Config) (start : SchedulerState) (p : Polls) : Prop where
  jobs : JobsInv p.sched
  named : ExecutionsHold (Named cfg) p.sched
  founded : p.Founded
  answers : p.sched.phase.AnswersHold fun entry =>
    entry.result = .ok (.exited 0) → ∃ node, p.Evidence node entry.key
  succeeded : ∀ key job, findJob p.sched.daemon.runs key = some job → job.state = .succeeded →
    (∃ job₀, findJob start.daemon.runs key = some job₀ ∧ job₀.state = .succeeded) ∨
      ∃ node, p.Evidence node key

variable {cfg : Config} {start : SchedulerState} {p p' : Polls} {node : ℕ} {key : Key}

/-- A step in which `waitpid` knows the child. -/
theorem noneReaped_of_child {event : PollsEvent}
    (h : ∀ os, event.asks = some os → os.waited ≠ .error .noChild) : p.NoneReaped event := by
  cases event with
  | checked node key os => exact fun _ _ _ hreaped => h os rfl hreaped.2
  | served node key os => exact fun _ _ _ hreaped => h os rfl hreaped.2
  | pollHere os tail => exact fun _ _ hreaped => h os rfl hreaped.2
  | _ => trivial

theorem Begins.inv (h : p.Begins cfg) : p.Inv cfg p.sched where
  jobs := h.jobs
  named := ⟨h.named, by
    cases hphase : p.sched.phase with
    | launching tasks outcomes => exact absurd hphase (h.launching tasks outcomes)
    | polling todo entries => exact absurd hphase (h.polling todo entries)
    | _ => trivial⟩
  founded := h.founded
  answers := by
    cases hphase : p.sched.phase with
    | polling todo entries => exact absurd hphase (h.polling todo entries)
    | _ => trivial
  succeeded key job hjob hstate := .inl ⟨job, hjob, hstate⟩

theorem Inv.succeedsOnEvidence (h : p.Inv cfg start) : p.SucceedsOnEvidence start := by
  refine ⟨fun todo entries hphase => ?_, h.succeeded⟩
  have hanswers := h.answers
  rw [hphase] at hanswers
  exact hanswers

/-! ### Evidence -/

/-- What was answered stays answered. -/
theorem Evidence.mono (h : p.Evidence node key) (hsub : p.seen ⊆ p'.seen) :
    p'.Evidence node key := by
  obtain ⟨seen, hmem, hrest⟩ := h
  exact ⟨seen, hsub hmem, hrest⟩

theorem evidence_observe {handle : JobHandle} {os : OsAnswers}
    (h : ShellExecutor.Evidence handle os) : (p.observe node key handle os).Evidence node key :=
  ⟨⟨node, key, handle, os⟩, by simp [observe], rfl, rfl, h⟩

theorem observe_seen (p : Polls) (node : ℕ) (key : Key) (handle : JobHandle) (os : OsAnswers) :
    p.seen ⊆ (p.observe node key handle os).seen := List.subset_append_left _ _

theorem Founded.observe (h : p.Founded) (handle : JobHandle) (os : OsAnswers) :
    (p.observe node key handle os).Founded where
  kept node' key' process hprocess hzero :=
    (h.kept node' key' process hprocess hzero).mono (p.observe_seen node key handle os)
  replies node' key' hmem := (h.replies node' key' hmem).mono (p.observe_seen node key handle os)

theorem Founded.insert (h : p.Founded) {process : Process}
    (hzero : process.exitCode = some 0 → p.Evidence node key) :
    (p.insert node key process).Founded where
  kept node' key' process' hprocess hzero' := by
    simp only [Polls.insert, Function.update_apply] at hprocess
    split at hprocess
    · next hnode =>
      obtain rfl := hnode
      rw [Function.update_apply] at hprocess
      split at hprocess
      · next hkey =>
        obtain rfl := hkey
        obtain rfl := Option.some.inj hprocess
        exact hzero hzero'
      · exact h.kept node' key' process' hprocess hzero'
    · exact h.kept node' key' process' hprocess hzero'
  replies := h.replies

theorem check_seen (p : Polls) (node : ℕ) (key : Key) (process : Process) (os : OsAnswers) :
    p.seen ⊆ (p.check node key process os).seen := by
  unfold check
  split
  · exact p.observe_seen node key process.handle os
  · exact List.Subset.refl _

/-- What a worker keeps after a check has evidence. -/
theorem Founded.evidence_check (h : p.Founded) {process : Process} {os : OsAnswers}
    (hprocess : p.processes node key = some process)
    (hreaped : process.exitCode = none → ¬ ShellExecutor.Reaped process.handle os)
    (hzero : (process.checked os).exitCode = some 0) :
    (p.check node key process os).Evidence node key := by
  rcases Process.checked_exitCode hzero with hkept | ⟨hnone, hpoll⟩
  · exact (h.kept node key process hprocess hkept).mono (p.check_seen node key process os)
  · have hevidence := (ShellExecutor.poll_evidence_iff _ _).2 (hreaped hnone) hpoll
    rw [check, if_pos hnone]
    exact evidence_observe hevidence

theorem Founded.check (h : p.Founded) {process : Process} {os : OsAnswers}
    (hprocess : p.processes node key = some process)
    (hreaped : process.exitCode = none → ¬ ShellExecutor.Reaped process.handle os) :
    (p.check node key process os).Founded := by
  have hevidence := h.evidence_check hprocess hreaped
  unfold Polls.check at hevidence ⊢
  by_cases hnone : process.exitCode = none
  · rw [if_pos hnone] at hevidence ⊢
    exact (h.observe process.handle os).insert hevidence
  · rw [if_neg hnone] at hevidence ⊢
    exact h.insert hevidence

theorem Founded.answer (h : p.Founded) {response : Response}
    (hzero : response = .polled (some 0) → p.Evidence node key) :
    (p.answer node key response).Founded where
  kept := h.kept
  replies node' key' hmem := by
    rcases List.mem_append.1 hmem with hmem | hmem
    · exact h.replies node' key' hmem
    · simp only [List.mem_singleton, Prod.mk.injEq] at hmem
      obtain ⟨rfl, rfl, heq⟩ := hmem
      exact hzero heq.symm

/-- Only the map is lost when a daemon starts again. -/
theorem Founded.restarted (h : p.Founded) (node : ℕ) :
    ({ p with processes := Function.update p.processes node fun _ => none } : Polls).Founded where
  kept node' key' process hprocess hzero := by
    simp only [Function.update_apply] at hprocess
    split at hprocess
    · cases hprocess
    · exact h.kept node' key' process hprocess hzero
  replies := h.replies

/-! ### Steps -/

theorem schedule_eq_some {label : Label} : p.schedule cfg label = some p' ↔
    ∃ sched, p.sched.perform cfg label = some (.ok sched) ∧ p' = { p with sched := sched } := by
  unfold schedule
  split
  · next sched hsched => simp [hsched, eq_comm]
  · next hne =>
    simp only [reduceCtorEq, false_iff]
    rintro ⟨sched, hsched, -⟩
    exact hne sched hsched

/-- A step of the workers: the scheduler is as before, and nothing answered is lost. -/
theorem Inv.workers (h : p.Inv cfg start) (hsched : p'.sched = p.sched) (hseen : p.seen ⊆ p'.seen)
    (hfounded : p'.Founded) : p'.Inv cfg start where
  jobs := hsched ▸ h.jobs
  named := hsched ▸ h.named
  founded := hfounded
  answers := by
    rw [hsched]
    exact h.answers.mono fun entry hentry hzero =>
      (hentry hzero).imp fun _ hevidence => hevidence.mono hseen
  succeeded key job hjob hstate := by
    rw [hsched] at hjob
    exact (h.succeeded key job hjob hstate).imp_right fun hsome =>
      hsome.imp fun _ hevidence => hevidence.mono hseen

/-- A step of the scheduler, which leaves the workers as they are. -/
theorem Inv.schedule (h : p.Inv cfg start) {label : Label} (hst : p.schedule cfg label = some p')
    (hlaunch : LaunchesHold (Named cfg) p.sched label)
    (hpoll : PollsHold (fun entry => entry.result = .ok (.exited 0) →
      ∃ node, p.Evidence node entry.key) p.sched label) : p'.Inv cfg start := by
  obtain ⟨sched, hperform, rfl⟩ := schedule_eq_some.1 hst
  have hstep := step_of_perform hperform
  refine ⟨h.jobs.step hstep, h.named.step h.jobs hlaunch hstep, ⟨h.founded.kept,
    h.founded.replies⟩, h.answers.step hpoll hstep, fun key job' hjob' hstate => ?_⟩
  cases hjob : findJob p.sched.daemon.runs key with
  | none =>
    obtain ⟨_, _, rfl⟩ := hstep.job_new h.jobs.keysInv hjob hjob'
    cases hstate
  | some job =>
    obtain ⟨job₁, hjob₁, hbecame⟩ := hstep.job h.jobs.keysInv hjob
    obtain rfl := Option.some.inj (hjob₁.symm.trans hjob')
    rcases hbecame.succeeded hstate with hbefore | ⟨entries, entry, hphase, hentry, rfl, hzero⟩
    · exact h.succeeded key job hjob hbefore
    · have hanswers := h.answers
      rw [hphase] at hanswers
      exact .inr (hanswers entry hentry hzero)

/-- What a launch on another node returns goes by the job's name there. -/
theorem named_of_launchResults {key : JobKey} {members : List (ℕ × Allocation)}
    {returns : List LaunchReturn} {results : List (Except ExecutorError JobHandle)}
    (h : launchResults cfg key members returns = some results) :
    ∀ entry ∈ members.zip results,
      Named cfg key ⟨entry.1.1, entry.1.2, entry.2.toOption⟩ := by
  induction members generalizing returns results with
  | nil => simp
  | cons member members ih =>
    cases returns with
    | nil => cases h
    | cons launch returns =>
      simp only [launchResults, Option.bind_eq_bind, Option.bind_eq_some_iff] at h
      obtain ⟨result, hresult, rest, hrest, hall⟩ := h
      obtain rfl := Option.some.inj hall
      intro entry hentry
      rcases List.mem_cons.1 hentry with rfl | hentry
      · intro hremote handle hhandle
        cases launch with
        -- a member on another node is not launched here
        | here launch scope exitFile =>
          have hlocal := (Option.ite_none_right_eq_some.1 hresult).1
          rw [hremote] at hlocal
          cases hlocal
        | remote online connected reply =>
          obtain ⟨-, heq⟩ := Option.ite_none_right_eq_some.1 hresult
          obtain rfl := Option.some.inj heq
          dsimp only at hhandle
          split at hhandle
          · cases hhandle
          · cases hlaunched : RemoteExecutor.launch key.1 key.2 reply with
            | error _ => rw [hlaunched] at hhandle; cases hhandle
            | ok launched =>
              rw [hlaunched] at hhandle
              obtain rfl := Option.some.inj hhandle
              exact RemoteExecutor.launch_eq_ok hlaunched
      · exact ih hrest entry hentry

/-- A poll on another node that answers exit code 0 had a reply of the worker that says so. -/
theorem remotePoll_eq_zero {handle : JobHandle} {online : Bool} {connected : Except String Unit}
    {reply : Except String Response}
    (h : remotePoll handle online connected reply = .ok (.exited 0)) :
    ∃ key, RemoteExecutor.key handle = .ok key ∧ reply = .ok (.polled (some 0)) := by
  unfold remotePoll at h
  cases hkey : RemoteExecutor.key handle with
  | error _ => rw [hkey] at h; cases h
  | ok key =>
    rw [hkey] at h
    cases hconnect : RemoteExecutor.connect online connected with
    | error _ => rw [hconnect] at h; cases h
    | ok _ =>
      rw [hconnect] at h
      exact ⟨key, rfl, RemoteExecutor.poll_eq_exited h⟩

theorem nextPoll_eq_some {job : RunningJob} (h : p.nextPoll = some job) :
    ∃ todo entries, p.sched.phase = .polling (job :: todo) entries := by
  unfold nextPoll at h
  split at h
  · next hphase =>
    obtain rfl := Option.some.inj h
    exact ⟨_, _, hphase⟩
  · cases h

/-- The job that is polled next is the first of the phase. -/
theorem nextPoll_eq_head {job job' : RunningJob} {todo : List RunningJob}
    {entries : List PollEntry} (h : p.nextPoll = some job)
    (hphase : p.sched.phase = .polling (job' :: todo) entries) : job = job' := by
  obtain ⟨todo', entries', hphase'⟩ := nextPoll_eq_some h
  obtain ⟨hcons, -⟩ := Phase.polling.inj (hphase'.symm.trans hphase)
  exact (List.cons.inj hcons).1

/-- A step whose label is not a return needs nothing of executions and answers. -/
theorem Inv.scheduler (h : p.Inv cfg start) {label : Label} (hreturn : ¬ label.isReturn = true)
    (hst : p.schedule cfg label = some p') : p'.Inv cfg start := by
  cases label with
  | launched _ => exact absurd rfl hreturn
  | polled _ _ => exact absurd rfl hreturn
  | _ => exact h.schedule hst trivial trivial

/-- Launches that return. -/
theorem Inv.launched (h : p.Inv cfg start) {task : AdmitTask} {tasks : List AdmitTask}
    {outcomes : List LaunchOutcome} {returns : List LaunchReturn}
    {results : List (Except ExecutorError JobHandle)}
    (hphase : p.sched.phase = .launching (task :: tasks) outcomes)
    (hresults : launchResults cfg task.key task.placement returns = some results)
    (hst : p.schedule cfg (.launched results) = some p') : p'.Inv cfg start := by
  refine h.schedule hst ?_ trivial
  intro task' tasks' outcomes' hphase' execution hexecution
  obtain ⟨hcons, -⟩ := Phase.launching.inj (hphase.symm.trans hphase')
  obtain ⟨rfl, -⟩ := List.cons.inj hcons
  obtain ⟨entry, hentry, rfl⟩ := List.mem_map.1 hexecution
  exact named_of_launchResults hresults entry hentry

/-- A poll on this machine. -/
theorem Inv.pollHere (h : p.Inv cfg start) {job : RunningJob} {os : OsAnswers}
    {tail : Option String} (hnext : p.nextPoll = some job)
    (hreaped : ¬ ShellExecutor.Reaped job.handle os)
    (hst : (p.observe job.node job.key job.handle os).schedule cfg
      (.polled (ShellExecutor.poll job.handle os) tail) = some p') : p'.Inv cfg start := by
  have hobserved : (p.observe job.node job.key job.handle os).Inv cfg start :=
    h.workers rfl (p.observe_seen _ _ _ _) (h.founded.observe job.handle os)
  refine hobserved.schedule hst trivial ?_
  intro job' todo entries hphase hzero
  obtain rfl := nextPoll_eq_head hnext hphase
  exact ⟨job.node, evidence_observe ((ShellExecutor.poll_evidence_iff _ _).2 hreaped hzero)⟩

/-- A poll on another node. -/
theorem Inv.poll (h : p.Inv cfg start) {job : RunningJob} {online : Bool}
    {connected : Except String Unit} {reply : Except String Response} {tail : Option String}
    (hnext : p.nextPoll = some job) (hremote : cfg.isRemote job.node = some true)
    (hreply : p.canReply job reply = true)
    (hst : p.schedule cfg (.polled (remotePoll job.handle online connected reply) tail) =
      some p') : p'.Inv cfg start := by
  refine h.schedule hst trivial ?_
  intro job' todo entries hphase hzero
  obtain rfl := nextPoll_eq_head hnext hphase
  obtain ⟨key, hkey, rfl⟩ := remotePoll_eq_zero hzero
  -- the node's name for the execution is the job's key
  have hnamed : key = job.key := by
    have hphases := h.named.phase
    rw [hphase] at hphases
    obtain ⟨execution, hholds, hnode, hhandle⟩ := hphases job List.mem_cons_self
    have hbackend := hholds (hnode ▸ hremote) job.handle hhandle
    rw [RemoteExecutor.key, hbackend] at hkey
    exact (Except.ok.inj hkey).symm
  simp only [canReply, hkey, List.contains_iff_mem] at hreply
  subst hnamed
  exact ⟨job.node, h.founded.replies job.node job.key hreply⟩

/-- The check of a worker, with what it answers. -/
theorem Inv.check (h : p.Inv cfg start) {process : Process} {os : OsAnswers}
    (hprocess : p.processes node key = some process)
    (hreaped : process.exitCode = none → ¬ ShellExecutor.Reaped process.handle os) :
    (p.check node key process os).Inv cfg start := by
  refine h.workers ?_ (p.check_seen node key process os) (h.founded.check hprocess hreaped)
  unfold Polls.check
  split <;> rfl

theorem Inv.step (h : p.Inv cfg start) {event : PollsEvent} (hguard : p.NoneReaped event)
    (hst : p.perform cfg event = some p') : p'.Inv cfg start := by
  cases event with
  | scheduler label =>
    obtain ⟨hreturn, hst⟩ := Option.ite_none_left_eq_some.1 hst
    exact h.scheduler hreturn hst
  | launched returns =>
    unfold perform at hst
    dsimp only at hst
    split at hst
    · next task tasks outcomes hphase =>
      obtain ⟨results, hresults, hst⟩ := Option.bind_eq_some_iff.1 hst
      exact h.launched hphase hresults hst
    · cases hst
  | found node key handle =>
    unfold perform at hst
    dsimp only at hst
    split at hst
    · cases hst
    · obtain rfl := Option.some.inj hst
      exact h.workers rfl (List.Subset.refl _) (h.founded.insert fun hzero => by cases hzero)
  | checked node key os =>
    obtain ⟨process, hprocess, rfl⟩ := Option.map_eq_some_iff.1 hst
    exact h.check hprocess (hguard process hprocess)
  | served node key os =>
    unfold perform at hst
    dsimp only at hst
    split at hst
    · next process hprocess =>
      obtain rfl := Option.some.inj hst
      -- the reply is what the check has found out
      have hreaped := hguard process hprocess
      refine (h.check hprocess hreaped).workers rfl (List.Subset.refl _)
        ((h.founded.check hprocess hreaped).answer fun hzero => ?_)
      exact h.founded.evidence_check hprocess hreaped (Process.reply_eq_polled hzero)
    · obtain rfl := Option.some.inj hst
      exact h.workers rfl (List.Subset.refl _) (h.founded.answer fun hzero => by cases hzero)
  | restarted node =>
    obtain rfl := Option.some.inj hst
    exact h.workers rfl (List.Subset.refl _) (h.founded.restarted node)
  | pollHere os tail =>
    obtain ⟨job, hnext, hst⟩ := Option.bind_eq_some_iff.1 hst
    obtain ⟨-, hst⟩ := Option.ite_none_right_eq_some.1 hst
    exact h.pollHere hnext (hguard job hnext) hst
  | poll online connected reply tail =>
    obtain ⟨job, hnext, hst⟩ := Option.bind_eq_some_iff.1 hst
    obtain ⟨⟨hremote, hreply⟩, hst⟩ := Option.ite_none_right_eq_some.1 hst
    exact h.poll hnext hremote hreply hst

end Polls

/-- A controller and the workers it polls, in any order of their steps. -/
def polls (cfg : Config) : LTS Polls PollsEvent := .ofPerform (Polls.perform cfg)

/-- **Success needs evidence, and where it has none.**  A poll answers exit code 0 only if `waitpid`
reported status 0 or the exit file says 0, exactly unless the job has no scope and `waitpid` knows
no such child; and in every run in which no such job is polled, on whatever node, every poll that
answered exit code 0 and every job that was marked Succeeded rests on such an answer. -/
theorem success_evidence (cfg : Config) :
    (∀ handle os, (ShellExecutor.poll handle os = .ok (.exited 0) →
      ShellExecutor.Evidence handle os) ↔ ¬ ShellExecutor.Reaped handle os) ∧
    ∀ p p' : Polls, p.Begins cfg → ((polls cfg).guard Polls.NoneReaped).Reach p p' →
      p'.SucceedsOnEvidence p.sched := by
  refine ⟨ShellExecutor.poll_evidence_iff, fun p p' hbegins hreach => ?_⟩
  have hinv : p'.Inv cfg p.sched :=
    hreach.invariant hbegins.inv fun _ _ _ _ hinv hst => hinv.step hst.1 hst.2
  exact hinv.succeedsOnEvidence

/-! ### With a scope and without -/

/-- A job is started on this machine, and the operating system is asked about it once. -/
def polledOnce (scope exitFile : Option String) (os : OsAnswers) : List PollsEvent :=
  [.scheduler (.submit "r" twoJobs twoJobs.jobs 0 true fun _ => true), .scheduler .tick,
    .scheduler (.flushed true 1), .scheduler .flushDone, .scheduler (.cascade 2),
    .scheduler .flushDone, .scheduler (.admitQueued [true]),
    .launched [.here (.spawned 7) scope exitFile], .scheduler (.launchesApplied 3),
    .scheduler (.flushed true 4), .scheduler .flushDone, .scheduler .collect, .pollHere os none,
    .scheduler (.pollsApplied 5)]

theorem asks_polledOnce (scope exitFile : Option String) (os : OsAnswers) :
    (polledOnce scope exitFile os).filterMap PollsEvent.asks = [os] := rfl

/-- A controller with one machine, about to start. -/
def nothingPolled : Polls := .start (.init [.new ⟨4, 8192, []⟩])

theorem nothingPolled_begins : nothingPolled.Begins oneMachine where
  jobs := (SchedulerState.Fresh.init _).jobsInv
  launching _ _ := by simp [nothingPolled, Polls.start, SchedulerState.init]
  polling _ _ := by simp [nothingPolled, Polls.start, SchedulerState.init]
  named _ _ hjob := by cases hjob
  founded.kept _ _ _ hprocess := by cases hprocess
  founded.replies _ _ hmem := by cases hmem

/-- Without a scope, when the kernel has reaped the child: the job succeeds, and nothing ever said
so. -/
theorem reapedPoll_succeeds : ∃ p, (polls oneMachine).Reach nothingPolled p ∧
    ¬ p.SucceedsOnEvidence nothingPolled.sched := by
  have hrun : (LTS.performs (Polls.perform oneMachine) nothingPolled
      (polledOnce none none ⟨.error .noChild, none, false, []⟩)).map (fun p =>
        ((findJob p.sched.daemon.runs ("r", "a")).map JobInstance.state,
          p.seen.map fun seen => decide (ShellExecutor.Evidence seen.handle seen.os))) =
      some (some .succeeded, [false]) := by decide
  obtain ⟨p, hp, hend⟩ := Option.map_eq_some_iff.1 hrun
  obtain ⟨hjob, hseen⟩ := Prod.mk.inj hend
  obtain ⟨job, hjob, hstate⟩ := Option.map_eq_some_iff.1 hjob
  refine ⟨p, (LTS.Reach.of_performs (G := fun _ _ => True) hp fun _ _ _ => trivial).of_guard, ?_⟩
  rintro ⟨-, hsucceeded⟩
  rcases hsucceeded _ job hjob hstate with ⟨job₀, hnone, -⟩ | ⟨node, seen, hmem, -, -, hevidence⟩
  · cases hnone
  · have hfalse := List.mem_map_of_mem (f := fun seen : Observation =>
      decide (ShellExecutor.Evidence seen.handle seen.os)) hmem
    rw [hseen, List.mem_singleton, decide_eq_false_iff_not] at hfalse
    exact hfalse hevidence

/-- With a scope the success rests on the exit file. -/
theorem scopedPoll_evidence : ∃ p : Polls, (∃ job, findJob p.sched.daemon.runs ("r", "a") =
    some job ∧ job.state = .succeeded) ∧ p.SucceedsOnEvidence nothingPolled.sched := by
  have hrun : (LTS.performs (Polls.perform oneMachine) nothingPolled
      (polledOnce (some "roster-r-a") (some "a.exit")
        ⟨.ok (.exited 0), some "0\n", false, []⟩)).bind
        (fun p => (findJob p.sched.daemon.runs ("r", "a")).map JobInstance.state) =
      some .succeeded := by decide
  obtain ⟨p, hp, hend⟩ := Option.bind_eq_some_iff.1 hrun
  obtain ⟨job, hjob, hstate⟩ := Option.map_eq_some_iff.1 hend
  refine ⟨p, ⟨job, hjob, hstate⟩, (success_evidence oneMachine).2 _ p nothingPolled_begins
    (LTS.Reach.of_performs hp fun q event hevent => ?_)⟩
  refine Polls.noneReaped_of_child fun os hos herror => ?_
  have hmem := List.mem_filterMap.2 ⟨event, hevent, hos⟩
  rw [asks_polledOnce, List.mem_singleton] at hmem
  subst hmem
  cases herror

end Roster
