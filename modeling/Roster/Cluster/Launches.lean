import Roster.Cluster.Basic

/-!
# At most one start for each job

A launch is answered with a process, with an error, with a refusal, or not at all, and the job goes
back to wait for another node only if nothing can have been started: the connection failed, or the
node turned the job down.  Every other launch of a job is spent (`Attempt.Spent`): from its request
on, until the outcome is applied, the scheduler is busy with this job, and after that the job has
left Queued for good (`Cluster.Spends`).

* `Cluster.Inv` : the invariant of a controller and its nodes.
* `launched_atMostOnce` : in one life of the controller at most one process is started for a job.
-/

namespace Roster

/-! ### The scheduler -/

/-- The job has left Queued. -/
def PastQueued (runs : List WorkflowRun) (key : JobKey) : Prop :=
  ∃ job, findJob runs key = some job ∧ job.state ≠ .pending ∧ job.state ≠ .queued

theorem LaunchedJob.past {now : DateTime} {outcome : LaunchOutcome} {job job' : JobInstance}
    (h : LaunchedJob now outcome job job')
    (hfinal : ∀ reason, outcome.result ≠ .error (.unreachable reason) ∧
      outcome.result ≠ .error (.rejected reason)) :
    job'.state ≠ .pending ∧ job'.state ≠ .queued := by
  cases h with
  | started log _ => exact ⟨JobState.noConfusion, JobState.noConfusion⟩
  | unreachable reason h => exact absurd h (hfinal reason).1
  | turnedDown node reasons h => exact absurd h (hfinal _).2
  | refused node reasons h => exact absurd h (hfinal _).2
  | failed error _ => exact ⟨JobState.noConfusion, JobState.noConfusion⟩

theorem PolledJob.past {now : DateTime} {entry : PollEntry} {job job' : JobInstance}
    (h : PolledJob now entry job job') (hrunning : job.state = .running) :
    job'.state ≠ .pending ∧ job'.state ≠ .queued := by
  cases h with
  | running _ => simp [hrunning]
  | unreachable reason _ => simp [hrunning]
  | failed error _ => exact ⟨JobState.noConfusion, JobState.noConfusion⟩
  | exited exitCode _ =>
    have hterm := job.exited_terminal exitCode entry.cancelling entry.tail now
    constructor <;> intro heq <;> rw [heq] at hterm <;> cases hterm

/-- No step takes a job back. -/
theorem PastQueued.step {cfg : Config} {s s' : SchedulerState} {label : Label} (hinv : JobsInv s)
    (hst : Step cfg s label s') {key : JobKey} (h : PastQueued s.daemon.runs key) :
    PastQueued s'.daemon.runs key := by
  obtain ⟨job, hjob, hpending, hqueued⟩ := h
  obtain ⟨job', hjob', hstep⟩ := hst.job hinv.keysInv hjob
  refine ⟨job', hjob', ?_⟩
  cases hstep with
  | same _ => exact ⟨hpending, hqueued⟩
  | marked hrunning =>
    have hsame := job.markCancelling_same.2.2.1
    rw [hsame]
    exact ⟨hpending, hqueued⟩
  | queued _ h _ => exact absurd h hpending
  | skipped _ h _ => exact absurd h (not_or.2 ⟨hpending, hqueued⟩)
  | launched _ _ _ h _ => exact absurd h hqueued
  | polled _ _ _ hrunning hpolled => exact hpolled.past hrunning

/-- While the scheduler's task waits for a launch, only requests come in. -/
theorem Step.launching_stays {cfg : Config} {s s' : SchedulerState} {label : Label}
    (h : Step cfg s label s') (hreturn : label.isReturn = false) {task : AdmitTask}
    {tasks : List AdmitTask} {outcomes : List LaunchOutcome}
    (hphase : s.phase = .launching (task :: tasks) outcomes) : s'.phase = s.phase := by
  cases h <;> first | rfl | (cases hphase; done) | cases hreturn

/-- When all were launched, the outcomes are applied. -/
theorem Step.launched_stays {cfg : Config} {s s' : SchedulerState} {label : Label}
    (h : Step cfg s label s') {outcomes : List LaunchOutcome}
    (hphase : s.phase = .launching [] outcomes) :
    s'.phase = s.phase ∨ ∃ now, label = .launchesApplied now := by
  cases h <;> first | exact .inl rfl | exact .inr ⟨_, rfl⟩ | cases hphase

/-- The same while it waits for a poll. -/
theorem Step.polling_stays {cfg : Config} {s s' : SchedulerState} {label : Label}
    (h : Step cfg s label s') (hreturn : label.isReturn = false) {job : RunningJob}
    {todo : List RunningJob} {entries : List PollEntry}
    (hphase : s.phase = .polling (job :: todo) entries) : s'.phase = s.phase := by
  cases h <;> first | rfl | (cases hphase; done) | cases hreturn

/-- Jobs to launch are there since they were admitted. -/
theorem Step.launching_from {cfg : Config} {s s' : SchedulerState} {label : Label}
    (h : Step cfg s label s') (hreturn : label.isReturn = false) {tasks : List AdmitTask}
    {outcomes : List LaunchOutcome} (hphase : s'.phase = .launching tasks outcomes) :
    s.phase = s'.phase ∨ (outcomes = [] ∧ ∃ online pools,
      Admitted online (allJobs s.daemon.runs) s.daemon.pools tasks pools) := by
  cases h with
  | admitQueued _ hok =>
    cases hphase
    exact .inr ⟨rfl, _, _, admitQueued_eq_ok hok⟩
  | flushDone next => cases next <;> cases hphase
  | _ => first | exact .inl rfl | (cases hphase; done) | cases hreturn

/-! ### Launches -/

/-- A result after which the scheduler does not launch the job again. -/
def Final {α : Type} (result : Except ExecutorError α) : Prop :=
  ∀ reason, result ≠ .error (.unreachable reason) ∧ result ≠ .error (.rejected reason)

theorem Final.map {α β : Type} {result : Except ExecutorError α} (h : Final result) (f : α → β) :
    Final (result.map f) := by
  intro reason
  cases result with
  | ok value => exact ⟨(by rintro ⟨⟩), by rintro ⟨⟩⟩
  | error error =>
    refine ⟨fun heq => (h reason).1 ?_, fun heq => (h reason).2 ?_⟩ <;>
      exact congrArg Except.error (Except.error.inj heq)

namespace Attempt

/-- The connection failed and nothing was sent. -/
def Unsent (attempt : Attempt) : Prop :=
  attempt.exchange = none ∧ ∃ reason, attempt.result = some (.error (.unreachable reason))

/-- The node turned the job down. -/
def Refused (attempt : Attempt) : Prop :=
  ∃ reason, attempt.result = some (.error (.rejected reason))

/-- Something may have been started. -/
def Spent (attempt : Attempt) : Prop := ¬ attempt.Unsent ∧ ¬ attempt.Refused

section

variable (node exchange : ℕ) (result : Except ExecutorError JobHandle) (attempt : Attempt)

@[simp] theorem returns_key : (attempt.returns node exchange result).key = attempt.key := by
  unfold returns
  split <;> rfl

@[simp] theorem returns_node : (attempt.returns node exchange result).node = attempt.node := by
  unfold returns
  split <;> rfl

@[simp] theorem returns_exchange :
    (attempt.returns node exchange result).exchange = attempt.exchange := by
  unfold returns
  split <;> rfl

variable {node exchange result attempt}

theorem returns_self (hnode : attempt.node = node) (hexchange : attempt.exchange = some exchange) :
    (attempt.returns node exchange result).result = some result := by
  rw [returns, if_pos ⟨hnode, hexchange⟩]

theorem returns_other (h : ¬ (attempt.node = node ∧ attempt.exchange = some exchange)) :
    attempt.returns node exchange result = attempt := if_neg h

end

end Attempt

/-- What makes the scheduler not launch a job again: its launch is under way or done, its outcome is
to be applied, or it was. -/
inductive Cluster.Spends (c : Cluster) (key : JobKey) : Prop
  | underway {task : AdmitTask} {tasks : List AdmitTask} {outcomes : List LaunchOutcome} :
      c.scheduler.phase = .launching (task :: tasks) outcomes → task.key = key →
      (c.waiting ≠ none ∨ ∃ result ∈ c.results, Final result) → Spends c key
  | outcome {tasks : List AdmitTask} {outcomes : List LaunchOutcome} {outcome : LaunchOutcome} :
      c.scheduler.phase = .launching tasks outcomes → outcome ∈ outcomes → outcome.key = key →
      Final outcome.result → Spends c key
  | past : PastQueued c.scheduler.daemon.runs key → Spends c key

namespace Cluster

/-- What the scheduler's task waits for. -/
def Awaits (attempts : List Attempt) (node exchange : ℕ) : Phase → Prop
  | .launching (task :: _) _ => ∃ attempt ∈ attempts, attempt.node = node ∧
      attempt.exchange = some exchange ∧ attempt.key = task.key
  | .polling (_ :: _) _ => True
  | _ => False

/-- The exchange of a launch, answered as the launch was when the node turned the job down. -/
def ExchangeOf (nodes : ℕ → NodeDaemon) (attempt : Attempt) : Prop :=
  ∀ i, attempt.exchange = some i → ∃ e : Exchange, (nodes attempt.node).exchanges[i]? = some e ∧
    e.request.op = .launch ∧ e.request.key = attempt.key ∧
    ∀ reason, attempt.result = some (.error (.rejected reason)) →
      e.stage = .replied (.rejected reason)

/-- What holds of a controller and its nodes between two steps; `base` processes were started on
each node before this life of the controller. -/
structure Inv (base : ℕ → ℕ) (c : Cluster) : Prop where
  jobs : JobsInv c.scheduler
  specs : ∀ {tasks outcomes}, c.scheduler.phase = .launching tasks outcomes →
    ∀ task ∈ tasks, task.jobInstance.spec.id = task.jobInstance.jobId
  node : ∀ node, (c.nodes node).Inv (base node)
  unsent : ∀ attempt ∈ c.attempts, attempt.exchange = none → attempt.Unsent
  exchange : ∀ attempt ∈ c.attempts, ExchangeOf c.nodes attempt
  /-- A Launch was sent by this controller or by somebody else. -/
  sender : ∀ (node i : ℕ) (e : Exchange), (c.nodes node).exchanges[i]? = some e →
    e.request.op = .launch → e.request.key ∉ c.foreign →
    ∃ attempt ∈ c.attempts, attempt.key = e.request.key ∧ attempt.node = node ∧
      attempt.exchange = some i
  /-- The launch whose reply is awaited has not returned. -/
  awaited : ∀ node i, c.waiting = some (node, i) →
    (∀ attempt ∈ c.attempts, attempt.node = node → attempt.exchange = some i →
      attempt.result = none) ∧ Awaits c.attempts node i c.scheduler.phase
  /-- A task has one member. -/
  single : c.results ≠ [] → c.waiting = none ∧ (∃ result, c.results = [result]) ∧
    ∃ task tasks outcomes, c.scheduler.phase = .launching (task :: tasks) outcomes
  spent : ∀ attempt ∈ c.attempts, attempt.Spent → c.Spends attempt.key
  order : c.attempts.Pairwise fun earlier later => earlier.key = later.key →
    earlier.Unsent ∨ earlier.Refused

variable {cfg : Config} {names : ℕ → Names} {base : ℕ → ℕ} {c c' : Cluster}

theorem Begins.inv (h : c.Begins) :
    c.Inv fun node => (c.nodes node).worker.world.starts.length where
  jobs := h.jobs
  specs hphase := by
    rw [h.phase] at hphase
    cases hphase
  node node := by
    obtain ⟨hexchanges, hserving, hcalls⟩ := h.nodes node
    refine ⟨?_, fun key hlaunch => absurd hlaunch (hcalls key), ?_, ?_⟩
    · simp [hserving]
    · simp [hexchanges]
    · intro p start hp hstart
      exact absurd (List.getElem?_eq_some_iff.1 hstart).1 (Nat.not_lt.2 hp)
  unsent := by simp [h.attempts]
  exchange := by simp [h.attempts]
  sender node := by simp [(h.nodes node).1]
  awaited := by simp [h.waiting]
  single hne := absurd h.results hne
  spent := by simp [h.attempts]
  order := by simp [h.attempts]

/-! ### The scheduler goes on -/

theorem schedule_eq_some {label : Label} (h : c.schedule cfg label = some c') :
    ∃ s, Step cfg c.scheduler label s ∧ c' = { c with scheduler := s } := by
  unfold schedule at h
  split at h
  · next s hs =>
    cases h
    exact ⟨s, step_of_perform hs, rfl⟩
  · cases h

/-- What was decided about a job stays decided. -/
theorem Spends.step (hinv : c.Inv base) {label : Label} {s : SchedulerState}
    (hst : Step cfg c.scheduler label s) (hreturn : label.isReturn = false) {key : JobKey}
    (h : c.Spends key) : Spends { c with scheduler := s } key := by
  cases h with
  | underway hphase hkey hbusy =>
    exact .underway ((hst.launching_stays hreturn hphase).trans hphase) hkey hbusy
  | @outcome tasks outcomes outcome hphase hmem hkey hfinal =>
    cases tasks with
    | cons task tasks =>
      exact .outcome ((hst.launching_stays hreturn hphase).trans hphase) hmem hkey hfinal
    | nil =>
      rcases hst.launched_stays hphase with hsame | ⟨now, rfl⟩
      · exact .outcome (hsame.trans hphase) hmem hkey hfinal
      · obtain ⟨job, job', -, -, hjob', hlaunched⟩ :=
          hst.launchesApplied_job hinv.jobs.keysInv hphase hmem
        exact .past ⟨job', hkey ▸ hjob', hlaunched.past hfinal⟩
  | past hpast => exact .past (hpast.step hinv.jobs hst)

theorem admitted_specs {s : SchedulerState} (hinv : JobsInv s) {online : List Bool}
    {tasks : List AdmitTask} {pools : List ResourcePool}
    (h : Admitted online (allJobs s.daemon.runs) s.daemon.pools tasks pools) :
    ∀ task ∈ tasks, task.jobInstance.spec.id = task.jobInstance.jobId := by
  intro task htask
  have hjob := hinv.keys.findJob (h.sublist.subset (List.mem_map_of_mem htask))
  obtain ⟨run, -, hj, hrun⟩ := hinv.runOf hjob
  exact (hrun.job _ _ hj).2

/-- A section of the scheduler, or a request to it. -/
theorem Inv.schedule (h : c.Inv base) {label : Label} {s : SchedulerState}
    (hst : Step cfg c.scheduler label s) (hreturn : label.isReturn = false) :
    Inv base { c with scheduler := s } where
  jobs := h.jobs.step hst
  specs hphase := by
    rcases hst.launching_from hreturn hphase with hsame | ⟨-, online, pools, hadmitted⟩
    · exact h.specs (hsame.trans hphase)
    · exact admitted_specs h.jobs hadmitted
  node := h.node
  unsent := h.unsent
  exchange := h.exchange
  sender := h.sender
  awaited node i hwaiting := by
    obtain ⟨hresult, hawaits⟩ := h.awaited node i hwaiting
    refine ⟨hresult, ?_⟩
    suffices hsame : s.phase = c.scheduler.phase by rwa [hsame]
    revert hawaits
    cases hphase : c.scheduler.phase with
    | launching tasks outcomes =>
      cases tasks with
      | nil => exact False.elim
      | cons task tasks => exact fun _ => (hst.launching_stays hreturn hphase).trans hphase
    | polling todo entries =>
      cases todo with
      | nil => exact False.elim
      | cons job todo => exact fun _ => (hst.polling_stays hreturn hphase).trans hphase
    | _ => exact False.elim
  single hne := by
    obtain ⟨hwaiting, hresult, task, tasks, outcomes, hphase⟩ := h.single hne
    exact ⟨hwaiting, hresult, task, tasks, outcomes,
      (hst.launching_stays hreturn hphase).trans hphase⟩
  spent attempt hmem hspent := (h.spent attempt hmem hspent).step h hst hreturn
  order := h.order

/-- While jobs are polled, every launch that counts has been applied. -/
theorem Inv.polling (h : c.Inv base) {todo : List RunningJob} {entries : List PollEntry}
    (hphase : c.scheduler.phase = .polling todo entries) : c.results = [] ∧
      ∀ attempt ∈ c.attempts, attempt.Spent →
        PastQueued c.scheduler.daemon.runs attempt.key := by
  refine ⟨?_, fun attempt hmem hspent => ?_⟩
  · by_contra hne
    obtain ⟨-, -, task, tasks, outcomes, heq⟩ := h.single hne
    rw [hphase] at heq
    cases heq
  · cases h.spent attempt hmem hspent with
    | underway heq _ _ => rw [hphase] at heq; cases heq
    | outcome heq _ _ _ => rw [hphase] at heq; cases heq
    | past hpast => exact hpast

/-- The answer of a poll. -/
theorem Inv.polled (h : c.Inv base) {result : Except ExecutorError PollResult}
    {tail : Option String} {s : SchedulerState}
    (hst : Step cfg c.scheduler (.polled result tail) s) :
    Inv base { c with scheduler := s, waiting := none } := by
  have hjobs := h.jobs.step hst
  obtain ⟨hphase, hphase'⟩ :
      (∃ job todo entries, c.scheduler.phase = .polling (job :: todo) entries) ∧
        ∃ todo entries, s.phase = .polling todo entries := by
    revert hst
    generalize c.scheduler = s₀
    intro hst
    cases hst
    exact ⟨⟨_, _, _, rfl⟩, _, _, rfl⟩
  obtain ⟨job, todo, entries, hphase⟩ := hphase
  obtain ⟨todo', entries', hphase'⟩ := hphase'
  obtain ⟨hresults, hpast⟩ := h.polling hphase
  refine ⟨hjobs, fun heq => ?_, h.node, h.unsent, h.exchange, h.sender, fun _ _ heq => ?_,
    fun hne => absurd hresults hne, fun attempt hmem hspent => ?_, h.order⟩
  · rw [hphase'] at heq
    cases heq
  · cases heq
  · exact .past ((hpast attempt hmem hspent).step h.jobs hst)

/-- The launch of a task is over. -/
theorem Inv.launched (h : c.Inv base) (hwaiting : c.waiting = none) {s : SchedulerState}
    (hst : Step cfg c.scheduler (.launched c.results) s) :
    Inv base { c with scheduler := s, results := [] } := by
  have hjobs := h.jobs.step hst
  obtain ⟨task, tasks, outcomes, hphase, hphase', hlen⟩ : ∃ task tasks outcomes,
      c.scheduler.phase = .launching (task :: tasks) outcomes ∧
      s.phase = .launching tasks (outcomes ++ [task.outcome c.results]) ∧
      c.results.length = task.placement.length := by
    revert hst
    generalize c.scheduler = s₀
    intro hst
    cases hst with
    | launched hlen => exact ⟨_, _, _, rfl, rfl, hlen⟩
  have hinv := h.jobs.phase
  rw [hphase] at hinv
  obtain ⟨node, alloc, hplacement⟩ := hinv.2.1 task List.mem_cons_self
  obtain ⟨result, hresult, houtcome⟩ := AdmitTask.outcome_single hplacement hlen
  refine ⟨hjobs, fun heq => ?_, h.node, h.unsent, h.exchange, h.sender, fun _ _ heq => ?_,
    fun hne => absurd rfl hne, fun attempt hmem hspent => ?_, h.order⟩
  · rw [hphase'] at heq
    cases heq
    exact fun task htask => h.specs hphase task (List.mem_cons_of_mem _ htask)
  · rw [hwaiting] at heq
    cases heq
  · cases h.spent attempt hmem hspent with
    | underway heq hkey hbusy =>
      rw [hphase] at heq
      cases heq
      -- the task is over, so its launch has returned something final
      obtain ⟨final, hfinal, hsticks⟩ := hbusy.resolve_left (not_not.2 hwaiting)
      rw [hresult, List.mem_singleton] at hfinal
      subst hfinal
      refine .outcome hphase' (List.mem_append_right _ (List.mem_singleton_self _)) hkey ?_
      rw [houtcome]
      exact hsticks.map _
    | outcome heq hout hkey hfinal =>
      rw [hphase] at heq
      cases heq
      exact .outcome hphase' (List.mem_append_left _ hout) hkey hfinal
    | past hpast => exact .past (hpast.step h.jobs hst)

/-! ### The nodes go on -/

theorem onNode_eq_some {node : ℕ} {event : NodeEvent} (h : c.onNode names node event = some c') :
    ∃ d, (c.nodes node).perform (names node) event = some d ∧
      c' = { c with nodes := Function.update c.nodes node d } := by
  obtain ⟨d, hd, rfl⟩ := Option.map_eq_some_iff.1 h
  exact ⟨d, hd, rfl⟩

/-- No exchange is lost, and those that were answered are as they were. -/
def Extends (exchanges exchanges' : List Exchange) : Prop :=
  ∀ (i : ℕ) (e : Exchange), exchanges[i]? = some e → ∃ e', exchanges'[i]? = some e' ∧
    e'.request = e.request ∧ ∀ response, e.stage = .replied response → e'.stage = e.stage

theorem Extends.of_keeps {exchanges exchanges' : List Exchange}
    (h : NodeDaemon.Keeps exchanges exchanges') : Extends exchanges exchanges' := by
  intro i e hget
  obtain ⟨e', hget', hrequest⟩ := h.request hget
  refine ⟨e', hget', hrequest, fun response hreplied => ?_⟩
  obtain rfl := Option.some.inj (hget'.symm.trans (h.replied i e response hget hreplied))
  rfl

theorem Extends.append (exchanges : List Exchange) (e : Exchange) :
    Extends exchanges (exchanges ++ [e]) := fun _ old hget =>
  ⟨old, getElem?_append_singleton.2 (.inl hget), rfl, fun _ _ => rfl⟩

theorem Inv.node_update (h : c.Inv base) {node : ℕ} {d : NodeDaemon} (hd : d.Inv (base node)) :
    ∀ other, (Function.update c.nodes node d other).Inv (base other) := by
  intro other
  by_cases heq : other = node
  · subst heq
    rwa [Function.update_self]
  · rw [Function.update_of_ne heq]
    exact h.node other

theorem Inv.exchange_update (h : c.Inv base) {node : ℕ} {d : NodeDaemon}
    (hextends : Extends (c.nodes node).exchanges d.exchanges) :
    ∀ attempt ∈ c.attempts, ExchangeOf (Function.update c.nodes node d) attempt := by
  intro attempt hmem i hi
  obtain ⟨e, hget, hop, hkey, hrefused⟩ := h.exchange attempt hmem i hi
  by_cases heq : attempt.node = node
  · subst heq
    obtain ⟨e', hget', hrequest, hstage⟩ := hextends i e hget
    refine ⟨e', by rwa [Function.update_self], by rw [hrequest, hop], by rw [hrequest, hkey], ?_⟩
    intro reason hreason
    rw [hstage _ (hrefused reason hreason), hrefused reason hreason]
  · exact ⟨e, by rwa [Function.update_of_ne heq], hop, hkey, hrefused⟩

/-- A step of a node that makes no new exchange. -/
theorem Inv.onNode (h : c.Inv base) {node : ℕ} {event : NodeEvent} (hold : event.isNew = false)
    (hst : c.onNode names node event = some c') : c'.Inv base := by
  obtain ⟨d, hd, rfl⟩ := onNode_eq_some hst
  have hkeeps := (h.node node).keeps hold hd
  refine ⟨h.jobs, h.specs, h.node_update ((h.node node).step hd), h.unsent,
    h.exchange_update (.of_keeps hkeeps), ?_, h.awaited, h.single, ?_, h.order⟩
  · intro other i e hget hop hforeign
    by_cases heq : other = node
    · subst heq
      dsimp only at hget
      rw [Function.update_self] at hget
      obtain ⟨before, hbefore, hrequest⟩ := hkeeps.request_back hget
      rw [← hrequest] at hop hforeign ⊢
      exact h.sender other i before hbefore hop hforeign
    · dsimp only at hget
      rw [Function.update_of_ne heq] at hget
      exact h.sender other i e hget hop hforeign
  · intro attempt hmem hspent
    cases h.spent attempt hmem hspent with
    | underway hphase hkey hbusy => exact .underway hphase hkey hbusy
    | outcome hphase hout hkey hfinal => exact .outcome hphase hout hkey hfinal
    | past hpast => exact .past hpast

/-- The exchanges after a new one. -/
theorem exchange_of_append {node other i : ℕ} {d : NodeDaemon} {new e : Exchange}
    (hd : d.exchanges = (c.nodes node).exchanges ++ [new])
    (hget : (Function.update c.nodes node d other).exchanges[i]? = some e) :
    (c.nodes other).exchanges[i]? = some e ∨
      (other = node ∧ i = (c.nodes node).exchanges.length ∧ e = new) := by
  by_cases heq : other = node
  · subst heq
    rw [Function.update_self, hd] at hget
    exact (getElem?_append_singleton.1 hget).imp_right fun ⟨hi, he⟩ => ⟨rfl, hi, he⟩
  · rw [Function.update_of_ne heq] at hget
    exact .inl hget

/-! ### The next launch -/

theorem nextMember_eq_some {task : AdmitTask} {member : ℕ × Allocation}
    (h : c.nextMember = some (task, member)) : c.waiting = none ∧
      (∃ tasks outcomes, c.scheduler.phase = .launching (task :: tasks) outcomes) ∧
      task.placement[c.results.length]? = some member := by
  unfold nextMember at h
  split at h
  · next hwaiting hphase =>
    obtain ⟨member', hmember, heq⟩ := Option.map_eq_some_iff.1 h
    cases heq
    exact ⟨hwaiting, ⟨_, _, hphase⟩, hmember⟩
  · cases h

/-- The next launch is the first of its task. -/
theorem Inv.nextMember (h : c.Inv base) {task : AdmitTask} {member : ℕ × Allocation}
    (hnext : c.nextMember = some (task, member)) : c.waiting = none ∧ c.results = [] ∧
      ∃ tasks outcomes, c.scheduler.phase = .launching (task :: tasks) outcomes := by
  obtain ⟨hwaiting, ⟨tasks, outcomes, hphase⟩, hmember⟩ := nextMember_eq_some hnext
  refine ⟨hwaiting, ?_, tasks, outcomes, hphase⟩
  by_contra hne
  obtain ⟨-, ⟨result, hresult⟩, -⟩ := h.single hne
  have hinv := h.jobs.phase
  rw [hphase] at hinv
  obtain ⟨node, alloc, hplacement⟩ := hinv.2.1 task List.mem_cons_self
  rw [hplacement, hresult] at hmember
  cases hmember

/-- The request for it names its job. -/
theorem Inv.nextMember_key (h : c.Inv base) {task : AdmitTask} {member : ℕ × Allocation}
    (hnext : c.nextMember = some (task, member)) :
    (task.runId, task.jobInstance.spec.id) = task.key := by
  obtain ⟨-, -, tasks, outcomes, hphase⟩ := h.nextMember hnext
  exact congrArg (Prod.mk task.runId) (h.specs hphase task List.mem_cons_self)

/-- The job that is launched next has not been decided about. -/
theorem Inv.spends_of_next (h : c.Inv base) {task : AdmitTask} {member : ℕ × Allocation}
    (hnext : c.nextMember = some (task, member)) {key : JobKey} (hspends : c.Spends key)
    (hscheduler : c'.scheduler = c.scheduler) : key ≠ task.key ∧ c'.Spends key := by
  obtain ⟨hwaiting, hresults, tasks, outcomes, hphase⟩ := h.nextMember hnext
  have hinv := h.jobs.phase
  rw [hphase] at hinv
  obtain ⟨hin, -, -⟩ := hinv
  cases hspends with
  | underway _ _ hbusy =>
    rw [hwaiting, hresults] at hbusy
    simp at hbusy
  | outcome heq hout hkey hfinal =>
    refine ⟨?_, .outcome (hscheduler ▸ heq) hout hkey hfinal⟩
    rw [hphase] at heq
    cases heq
    rintro rfl
    exact (List.nodup_append.1 hin.nodup).2.2 _ List.mem_cons_self _ (List.mem_map_of_mem hout)
      hkey.symm
  | past hpast =>
    refine ⟨?_, .past (hscheduler ▸ hpast)⟩
    rintro rfl
    obtain ⟨job, hjob, -, hqueued⟩ := hpast
    obtain ⟨job', hjob', hstate⟩ := hin.found task.key (List.mem_append_left _ List.mem_cons_self)
    obtain rfl := Option.some.inj (hjob.symm.trans hjob')
    exact hqueued hstate

/-- A launch is made only when no earlier one of the job can have started anything. -/
theorem Inv.attempts_of_next (h : c.Inv base) {task : AdmitTask} {member : ℕ × Allocation}
    (hnext : c.nextMember = some (task, member)) {new : Attempt} (hkey : new.key = task.key)
    (hscheduler : c'.scheduler = c.scheduler) (hnew : new.Spent → c'.Spends new.key) :
    (∀ attempt ∈ c.attempts ++ [new], attempt.Spent → c'.Spends attempt.key) ∧
      (c.attempts ++ [new]).Pairwise fun earlier later => earlier.key = later.key →
        earlier.Unsent ∨ earlier.Refused := by
  constructor
  · intro attempt hmem hspent
    rcases List.mem_append.1 hmem with hmem | hmem
    · exact (h.spends_of_next hnext (h.spent attempt hmem hspent) hscheduler).2
    · obtain rfl := List.mem_singleton.1 hmem
      exact hnew hspent
  · refine List.pairwise_append.2 ⟨h.order, List.pairwise_singleton .., ?_⟩
    intro attempt hmem later hlater heq
    obtain rfl := List.mem_singleton.1 hlater
    by_contra hnot
    have hspends := h.spent attempt hmem (not_or.1 hnot)
    exact (h.spends_of_next hnext hspends hscheduler).1 (heq.trans hkey)

/-- Of two launches of a job at most one is spent. -/
theorem Inv.spent_unique (h : c.Inv base) {a b : Attempt} (ha : a ∈ c.attempts)
    (hb : b ∈ c.attempts) (hkey : a.key = b.key) (hspentA : a.Spent) (hspentB : b.Spent) :
    a = b := by
  by_contra hne
  let apart : Attempt → Attempt → Prop := fun a b => a.key = b.key → ¬ (a.Spent ∧ b.Spent)
  have hsymm : Std.Symm apart := ⟨fun a b hab heq hboth => hab heq.symm hboth.symm⟩
  have hpairwise : c.attempts.Pairwise apart := h.order.imp fun {a b} hab heq hboth => by
    rcases hab heq with hunsent | hrefused
    · exact hboth.1.1 hunsent
    · exact hboth.1.2 hrefused
  exact hpairwise.forall ha hb hne hkey ⟨hspentA, hspentB⟩

/-! ### Replies -/

/-- The launch whose reply is awaited is of the task in hand. -/
theorem Inv.awaited_key (h : c.Inv base) {node i : ℕ} (hwaiting : c.waiting = some (node, i))
    {task : AdmitTask} {tasks : List AdmitTask} {outcomes : List LaunchOutcome}
    (hphase : c.scheduler.phase = .launching (task :: tasks) outcomes) {attempt : Attempt}
    (hmem : attempt ∈ c.attempts) (hnode : attempt.node = node)
    (hexchange : attempt.exchange = some i) : attempt.key = task.key := by
  obtain ⟨-, hawaits⟩ := h.awaited node i hwaiting
  rw [hphase] at hawaits
  obtain ⟨first, hfirst, hfirstNode, hfirstExchange, hfirstKey⟩ := hawaits
  obtain ⟨e, hget, -, hkey, -⟩ := h.exchange attempt hmem i hexchange
  obtain ⟨e', hget', -, hkey', -⟩ := h.exchange first hfirst i hfirstExchange
  rw [hnode, ← hfirstNode] at hget
  obtain rfl := Option.some.inj (hget.symm.trans hget')
  rw [← hkey, hkey', hfirstKey]

/-- The launch whose reply is awaited is neither unsent nor refused. -/
theorem Inv.awaited_open (h : c.Inv base) {node i : ℕ} (hwaiting : c.waiting = some (node, i))
    {attempt : Attempt} (hmem : attempt ∈ c.attempts) (hnode : attempt.node = node)
    (hexchange : attempt.exchange = some i) : attempt.Spent := by
  refine ⟨fun hunsent => ?_, fun ⟨reason, hreason⟩ => ?_⟩
  · rw [hunsent.1] at hexchange
    cases hexchange
  · rw [(h.awaited node i hwaiting).1 attempt hmem hnode hexchange] at hreason
    cases hreason

/-- It is the only launch of its job that is spent. -/
theorem Inv.awaited_only (h : c.Inv base) {node i : ℕ} (hwaiting : c.waiting = some (node, i))
    {task : AdmitTask} {tasks : List AdmitTask} {outcomes : List LaunchOutcome}
    (hphase : c.scheduler.phase = .launching (task :: tasks) outcomes) {attempt : Attempt}
    (hmem : attempt ∈ c.attempts) (hkey : attempt.key = task.key) (hspent : attempt.Spent) :
    attempt.node = node ∧ attempt.exchange = some i := by
  obtain ⟨-, hawaits⟩ := h.awaited node i hwaiting
  rw [hphase] at hawaits
  obtain ⟨first, hfirst, hnode, hexchange, hfirstKey⟩ := hawaits
  obtain rfl := h.spent_unique hmem hfirst (hkey.trans hfirstKey.symm) hspent
    (h.awaited_open hwaiting hfirst hnode hexchange)
  exact ⟨hnode, hexchange⟩

/-- The launch whose reply was awaited returns. -/
theorem Inv.launchReturned (h : c.Inv base) {node i : ℕ} (hwaiting : c.waiting = some (node, i))
    {task : AdmitTask} {tasks : List AdmitTask} {outcomes : List LaunchOutcome}
    (hphase : c.scheduler.phase = .launching (task :: tasks) outcomes)
    {result : Except ExecutorError JobHandle}
    (hsent : ∀ reason, result ≠ .error (.unreachable reason))
    (hrefused : ∀ reason, result = .error (.rejected reason) → ∃ e : Exchange,
      (c.nodes node).exchanges[i]? = some e ∧ e.stage = .replied (.rejected reason)) :
    Inv base { c with
      waiting := none
      results := c.results ++ [result]
      attempts := c.attempts.map (Attempt.returns node i result) } := by
  have hresults : c.results = [] := by
    by_contra hne
    rw [(h.single hne).1] at hwaiting
    cases hwaiting
  refine ⟨h.jobs, h.specs, h.node, ?_, ?_, ?_, fun _ _ heq => ?_, fun _ => ?_, ?_, ?_⟩
  · rintro _ himage hexchange
    obtain ⟨attempt, hmem, rfl⟩ := List.mem_map.1 himage
    rw [Attempt.returns_exchange] at hexchange
    rw [Attempt.returns_other fun hself => by simp [hexchange] at hself]
    exact h.unsent attempt hmem hexchange
  · rintro _ himage j hj
    obtain ⟨attempt, hmem, rfl⟩ := List.mem_map.1 himage
    rw [Attempt.returns_exchange] at hj
    by_cases hself : attempt.node = node ∧ attempt.exchange = some i
    · obtain ⟨e, hget, hop, hkey, -⟩ := h.exchange attempt hmem j hj
      simp only [Attempt.returns_node, Attempt.returns_key]
      refine ⟨e, hget, hop, hkey, fun reason hreason => ?_⟩
      rw [Attempt.returns_self hself.1 hself.2] at hreason
      -- only the launch that returned can have been turned down now
      obtain ⟨e', hget', hstage⟩ := hrefused reason (Option.some.inj hreason)
      obtain rfl : i = j := Option.some.inj (hself.2.symm.trans hj)
      rw [hself.1] at hget
      obtain rfl := Option.some.inj (hget.symm.trans hget')
      exact hstage
    · rw [Attempt.returns_other hself]
      exact h.exchange attempt hmem j hj
  · intro other j e hget hop hforeign
    obtain ⟨attempt, hmem, hkey, hnode, hexchange⟩ := h.sender other j e hget hop hforeign
    exact ⟨_, List.mem_map_of_mem hmem, by simpa using hkey, by simpa using hnode,
      by simpa using hexchange⟩
  · cases heq
  · exact ⟨rfl, ⟨result, by simp [hresults]⟩, task, tasks, outcomes, hphase⟩
  · rintro _ himage hspent
    obtain ⟨attempt, hmem, rfl⟩ := List.mem_map.1 himage
    rw [Attempt.returns_key]
    -- the launch that returns now is the one of the task in hand; the others are as they were
    by_cases hself : attempt.node = node ∧ attempt.exchange = some i
    · refine .underway hphase (h.awaited_key hwaiting hphase hmem hself.1 hself.2).symm
        (.inr ⟨result, List.mem_append_right _ (List.mem_singleton_self _), fun reason =>
          ⟨hsent reason, fun hrejected => hspent.2 ⟨reason, ?_⟩⟩⟩)
      rw [Attempt.returns_self hself.1 hself.2, hrejected]
    · rw [Attempt.returns_other hself] at hspent
      cases h.spent attempt hmem hspent with
      | outcome hphase hout hkey hfinal => exact .outcome hphase hout hkey hfinal
      | past hpast => exact .past hpast
      | underway heq hkey _ =>
        rw [hphase] at heq
        cases heq
        exact absurd (h.awaited_only hwaiting hphase hmem hkey.symm hspent) hself
  · refine List.pairwise_map.2 (h.order.imp_of_mem ?_)
    intro earlier later hmem _ hrel hkey
    rw [Attempt.returns_key, Attempt.returns_key] at hkey
    have hself : ¬ (earlier.node = node ∧ earlier.exchange = some i) := by
      rintro ⟨hnode, hexchange⟩
      have hopen := h.awaited_open hwaiting hmem hnode hexchange
      exact (hrel hkey).elim hopen.1 hopen.2
    rw [Attempt.returns_other hself]
    exact hrel hkey

/-- The reply that is awaited, or the lack of one. -/
theorem Inv.deliver (h : c.Inv base) {reply : Except String Response} {tail : Option String}
    (hreply : ∀ node i response, c.waiting = some (node, i) → reply = .ok response →
      ∃ e : Exchange, (c.nodes node).exchanges[i]? = some e ∧ e.stage = .replied response)
    (hst : c.deliver cfg reply tail = some c') : c'.Inv base := by
  obtain ⟨⟨node, i⟩, hwaiting, hst⟩ := Option.bind_eq_some_iff.1 hst
  dsimp only at hst
  split at hst
  · next task tasks outcomes hphase =>
    cases hst
    refine h.launchReturned hwaiting hphase (RemoteExecutor.launch_ne_unreachable _ _ _) ?_
    intro reason hrejected
    exact hreply node i _ hwaiting (RemoteExecutor.launch_eq_rejected hrejected)
  · obtain ⟨s, hs, rfl⟩ := schedule_eq_some hst
    exact h.polled hs
  · cases hst

/-! ### Every step -/

theorem Spends.frame {key : JobKey} (h : c.Spends key) (hscheduler : c'.scheduler = c.scheduler)
    (hwaiting : c'.waiting = c.waiting) (hresults : c'.results = c.results) : c'.Spends key := by
  cases h with
  | underway hphase hkey hbusy =>
    exact .underway (hscheduler ▸ hphase) hkey (by rwa [hwaiting, hresults])
  | outcome hphase hout hkey hfinal => exact .outcome (hscheduler ▸ hphase) hout hkey hfinal
  | past hpast => exact .past (hscheduler ▸ hpast)

/-- Somebody else sends a Launch. -/
theorem Inv.launchElsewhere (h : c.Inv base) {node : ℕ} {runId : String} {job : JobSpec}
    {allocation : Allocation}
    (hst : c.perform cfg names (.launchElsewhere node runId job allocation) = some c') :
    c'.Inv base := by
  simp only [perform] at hst
  obtain ⟨mid, hmid, rfl⟩ := Option.map_eq_some_iff.1 hst
  obtain ⟨d, hd, rfl⟩ := onNode_eq_some hmid
  have hstep := (h.node node).step hd
  cases hd
  refine ⟨h.jobs, h.specs, h.node_update hstep, h.unsent, h.exchange_update (.append _ _), ?_,
    h.awaited, h.single, fun attempt hmem hspent => (h.spent attempt hmem hspent).frame rfl rfl rfl,
    h.order⟩
  intro other i e hget hop hforeign
  have hold : e.request.key ∉ c.foreign := fun hmem => hforeign (List.mem_append_left _ hmem)
  rcases exchange_of_append rfl hget with hget | ⟨-, -, rfl⟩
  · exact h.sender other i e hget hop hold
  · exact absurd (List.mem_append_right _ (List.mem_singleton_self _)) hforeign

theorem nextPoll_eq_some {job : RunningJob} (h : c.nextPoll = some job) : c.waiting = none ∧
    ∃ todo entries, c.scheduler.phase = .polling (job :: todo) entries := by
  unfold nextPoll at h
  split at h
  · next hwaiting hphase =>
    cases h
    exact ⟨hwaiting, _, _, hphase⟩
  · cases h

/-- A poll that returns at once. -/
theorem Inv.pollReturned (h : c.Inv base) {job : RunningJob} (hnext : c.nextPoll = some job)
    {result : Except ExecutorError PollResult} {tail : Option String}
    (hst : c.schedule cfg (.polled result tail) = some c') : c'.Inv base := by
  obtain ⟨s, hs, rfl⟩ := schedule_eq_some hst
  have hpolled := h.polled hs
  rwa [← (nextPoll_eq_some hnext).1] at hpolled

/-- A poll is sent. -/
theorem Inv.pollSent (h : c.Inv base) {job : RunningJob} (hnext : c.nextPoll = some job)
    {node : ℕ} {runId jobId : String}
    (hst : c.onNode names node (.accept (.poll runId jobId)) = some c') :
    Inv base { c' with waiting := some (node, (c.nodes node).exchanges.length) } := by
  obtain ⟨d, hd, rfl⟩ := onNode_eq_some hst
  have hstep := (h.node node).step hd
  obtain ⟨hwaiting, todo, entries, hphase⟩ := nextPoll_eq_some hnext
  cases hd
  obtain ⟨hresults, hpast⟩ := h.polling hphase
  refine ⟨h.jobs, h.specs, h.node_update hstep, h.unsent, h.exchange_update (.append _ _), ?_, ?_,
    fun hne => absurd hresults hne, fun attempt hmem hspent => .past (hpast attempt hmem hspent),
    h.order⟩
  · intro other i e hget hop hforeign
    rcases exchange_of_append rfl hget with hget | ⟨-, -, rfl⟩
    · exact h.sender other i e hget hop hforeign
    · cases hop
  · rintro _ _ ⟨⟩
    refine ⟨fun attempt hmem hnode hi => ?_, ?_⟩
    · obtain ⟨e, hget, -⟩ := h.exchange attempt hmem _ hi
      rw [hnode] at hget
      exact absurd (List.getElem?_eq_some_iff.1 hget).1 (Nat.lt_irrefl _)
    · show Awaits c.attempts _ _ c.scheduler.phase
      rw [hphase]
      trivial

/-- One more launch: it failed or is answered, or its reply is awaited. -/
theorem Inv.withAttempt (h : c.Inv base) {task : AdmitTask} {member : ℕ × Allocation}
    (hnext : c.nextMember = some (task, member)) {new : Attempt} (hkey : new.key = task.key)
    (hscheduler : c'.scheduler = c.scheduler) (hforeign : c'.foreign = c.foreign)
    (hattempts : c'.attempts = c.attempts ++ [new])
    (hnode : ∀ node, (c'.nodes node).Inv (base node))
    (hunsent : new.exchange = none → new.Unsent)
    (hexchange : ∀ attempt ∈ c.attempts, ExchangeOf c'.nodes attempt)
    (hnewExchange : ExchangeOf c'.nodes new)
    (hsender : ∀ (node i : ℕ) (e : Exchange), (c'.nodes node).exchanges[i]? = some e →
      (c.nodes node).exchanges[i]? = some e ∨
        (new.key = e.request.key ∧ new.node = node ∧ new.exchange = some i))
    (hreturn : (c'.waiting = none ∧ ∃ result, c'.results = [result] ∧ (new.Spent → Final result)) ∨
      (c'.results = [] ∧ c'.waiting = some (new.node, (c.nodes new.node).exchanges.length) ∧
        new.exchange = some (c.nodes new.node).exchanges.length ∧ new.result = none)) :
    c'.Inv base := by
  obtain ⟨hwaiting, hresults, tasks, outcomes, hphase⟩ := h.nextMember hnext
  have hphase' : c'.scheduler.phase = .launching (task :: tasks) outcomes := hscheduler ▸ hphase
  -- the new launch belongs to the task in hand, whether it waits or has returned
  have hnew : new.Spent → c'.Spends new.key := by
    intro hspent
    refine .underway hphase' hkey.symm ?_
    rcases hreturn with ⟨-, result, hresult, hfinal⟩ | ⟨-, hwaits, -⟩
    · exact .inr ⟨result, by simp [hresult], hfinal hspent⟩
    · exact .inl (by simp [hwaits])
  obtain ⟨hspent, horder⟩ := h.attempts_of_next hnext hkey hscheduler hnew
  refine ⟨hscheduler ▸ h.jobs, fun heq => h.specs (hscheduler ▸ heq), hnode, ?_, ?_, ?_, ?_, ?_,
    hattempts ▸ hspent, hattempts ▸ horder⟩
  · rw [hattempts]
    intro attempt hmem
    rcases List.mem_append.1 hmem with hmem | hmem
    · exact h.unsent attempt hmem
    · exact List.mem_singleton.1 hmem ▸ hunsent
  · rw [hattempts]
    intro attempt hmem
    rcases List.mem_append.1 hmem with hmem | hmem
    · exact hexchange attempt hmem
    · exact List.mem_singleton.1 hmem ▸ hnewExchange
  · rw [hattempts, hforeign]
    intro node i e hget hop hforeign
    rcases hsender node i e hget with hold | hsent
    · obtain ⟨attempt, hmem, hrest⟩ := h.sender node i e hold hop hforeign
      exact ⟨attempt, List.mem_append_left _ hmem, hrest⟩
    · exact ⟨new, List.mem_append_right _ (List.mem_singleton_self _), hsent⟩
  · rw [hattempts, hphase']
    intro node i hwaits
    rcases hreturn with ⟨hnone, -⟩ | ⟨-, hsome, hnewAt, hnone⟩
    · rw [hnone] at hwaits
      cases hwaits
    · rw [hsome] at hwaits
      cases hwaits
      refine ⟨fun attempt hmem hnode hi => ?_, new,
        List.mem_append_right _ (List.mem_singleton_self _), rfl, hnewAt, hkey⟩
      rcases List.mem_append.1 hmem with hmem | hmem
      · obtain ⟨e, hget, -⟩ := h.exchange attempt hmem _ hi
        rw [hnode] at hget
        exact absurd (List.getElem?_eq_some_iff.1 hget).1 (Nat.lt_irrefl _)
      · exact List.mem_singleton.1 hmem ▸ hnone
  · intro hne
    rcases hreturn with ⟨hnone, result, hresult, -⟩ | ⟨hnil, -⟩
    · exact ⟨hnone, ⟨result, hresult⟩, task, tasks, outcomes, hphase'⟩
    · exact absurd hnil hne

/-- A launch that does not get a connection. -/
theorem Inv.launchUnsent (h : c.Inv base) {task : AdmitTask} {node : ℕ} {allocation : Allocation}
    (hnext : c.nextMember = some (task, node, allocation)) (reason : String) :
    (c.returned task.key node none (.error (.unreachable reason))).Inv base := by
  obtain ⟨hwaiting, hresults, -⟩ := h.nextMember hnext
  have hunsent : Attempt.Unsent ⟨task.key, node, none, some (.error (.unreachable reason))⟩ :=
    ⟨rfl, reason, rfl⟩
  refine h.withAttempt hnext rfl rfl rfl rfl h.node (fun _ => hunsent) h.exchange ?_
    (fun _ _ _ hget => .inl hget)
    (.inl ⟨hwaiting, .error (.unreachable reason), ?_, fun hspent => absurd hunsent hspent.1⟩)
  · rintro _ ⟨⟩
  · simp [returned, hresults]

/-- A launch is sent. -/
theorem Inv.launchSent (h : c.Inv base) {task : AdmitTask} {node : ℕ} {allocation : Allocation}
    (hnext : c.nextMember = some (task, node, allocation))
    (hst : c.onNode names node
      (.accept (.launch task.runId task.jobInstance.spec allocation)) = some c') :
    Inv base { c' with
      waiting := some (node, (c.nodes node).exchanges.length)
      attempts := c'.attempts ++
        [⟨task.key, node, some (c.nodes node).exchanges.length, none⟩] } := by
  obtain ⟨d, hd, rfl⟩ := onNode_eq_some hst
  have hstep := (h.node node).step hd
  obtain ⟨hwaiting, hresults, -⟩ := h.nextMember hnext
  have hkey := h.nextMember_key hnext
  cases hd
  refine h.withAttempt hnext rfl rfl rfl rfl (h.node_update hstep)
    (fun heq => absurd heq (Option.some_ne_none _)) (h.exchange_update (.append _ _)) ?_ ?_
    (.inr ⟨hresults, rfl, rfl, rfl⟩)
  · rintro _ ⟨⟩
    refine ⟨⟨.launch task.runId task.jobInstance.spec allocation, .sent, none⟩, ?_, rfl, hkey,
      by rintro _ ⟨⟩⟩
    dsimp only
    rw [Function.update_self]
    exact getElem?_append_singleton.2 (.inr ⟨rfl, rfl⟩)
  · intro other i e hget
    rcases exchange_of_append rfl hget with hold | ⟨rfl, rfl, rfl⟩
    · exact .inl hold
    · exact .inr ⟨hkey.symm, rfl, rfl⟩

/-- A launch on the controller's own machine. -/
theorem Inv.launchHere (h : c.Inv base) {task : AdmitTask} {node : ℕ} {allocation : Allocation}
    (hnext : c.nextMember = some (task, node, allocation)) {launch : ShellLaunch}
    {scope exitFile : Option String}
    (hst : c.onNode names node
      (.launchHere task.runId task.jobInstance.spec allocation launch) = some c') :
    (c'.returned task.key node (some (c.nodes node).exchanges.length)
      (launch.result scope exitFile)).Inv base := by
  obtain ⟨d, hd, rfl⟩ := onNode_eq_some hst
  have hstep := (h.node node).step hd
  obtain ⟨hwaiting, hresults, -⟩ := h.nextMember hnext
  have hkey := h.nextMember_key hnext
  let request : Request := .launch task.runId task.jobInstance.spec allocation
  -- on this machine the exchange is over at once, with or without a process
  obtain ⟨started, hexchanges⟩ : ∃ started, d.exchanges = (c.nodes node).exchanges ++
      [⟨request, .replied launch.response, started⟩] := by
    cases launch <;> cases hd <;> exact ⟨_, rfl⟩
  refine h.withAttempt hnext rfl rfl rfl rfl (h.node_update hstep)
    (fun heq => absurd heq (Option.some_ne_none _))
    (h.exchange_update (hexchanges ▸ .append _ _)) ?_ ?_
    (.inl ⟨hwaiting, launch.result scope exitFile, by simp [returned, hresults], ?_⟩)
  · rintro _ ⟨⟩
    refine ⟨⟨request, .replied launch.response, started⟩, ?_, rfl, hkey, fun reason hreason => ?_⟩
    · dsimp only [returned]
      rw [Function.update_self, hexchanges]
      exact getElem?_append_singleton.2 (.inr ⟨rfl, rfl⟩)
    · cases launch <;> cases hreason
      rfl
  · intro other i e hget
    rcases exchange_of_append hexchanges hget with hold | ⟨rfl, rfl, rfl⟩
    · exact .inl hold
    · exact .inr ⟨hkey.symm, rfl, rfl⟩
  · intro hspent reason
    refine ⟨?_, fun hrejected => hspent.2 ⟨reason, congrArg some hrejected⟩⟩
    cases launch <;> rintro ⟨⟩

/-- Every step keeps the invariant. -/
theorem Inv.step (h : c.Inv base) {event : ClusterEvent}
    (hst : c.perform cfg names event = some c') : c'.Inv base := by
  cases event with
  | scheduler label =>
    obtain ⟨hreturn, hst⟩ := Option.ite_none_left_eq_some.1 hst
    obtain ⟨s, hs, rfl⟩ := schedule_eq_some hst
    exact h.schedule hs (Bool.eq_false_iff.2 hreturn)
  | node node event =>
    obtain ⟨hold, hst⟩ := Option.ite_none_left_eq_some.1 hst
    exact h.onNode (Bool.eq_false_iff.2 hold) hst
  | launchElsewhere node runId job allocation => exact h.launchElsewhere hst
  | launch online connected =>
    obtain ⟨⟨task, node, allocation⟩, hnext, hst⟩ := Option.bind_eq_some_iff.1 hst
    obtain ⟨-, hst⟩ := Option.ite_none_right_eq_some.1 hst
    split at hst
    · next error herror =>
      obtain ⟨reason, rfl⟩ := RemoteExecutor.connect_error herror
      cases hst
      exact h.launchUnsent hnext reason
    · obtain ⟨mid, hmid, rfl⟩ := Option.map_eq_some_iff.1 hst
      have hattempts : mid.attempts = c.attempts := by
        obtain ⟨d, -, rfl⟩ := onNode_eq_some hmid
        rfl
      exact hattempts ▸ h.launchSent hnext hmid
  | launchHere launch scope exitFile =>
    obtain ⟨⟨task, node, allocation⟩, hnext, hst⟩ := Option.bind_eq_some_iff.1 hst
    obtain ⟨-, hst⟩ := Option.ite_none_right_eq_some.1 hst
    obtain ⟨mid, hmid, rfl⟩ := Option.map_eq_some_iff.1 hst
    exact h.launchHere hnext hmid
  | launched =>
    obtain ⟨hwaiting, hst⟩ := Option.ite_none_right_eq_some.1 hst
    obtain ⟨mid, hmid, rfl⟩ := Option.map_eq_some_iff.1 hst
    obtain ⟨s, hs, rfl⟩ := schedule_eq_some hmid
    exact h.launched hwaiting hs
  | poll online connected =>
    obtain ⟨job, hnext, hst⟩ := Option.bind_eq_some_iff.1 hst
    obtain ⟨-, hst⟩ := Option.ite_none_right_eq_some.1 hst
    split at hst
    · exact h.pollReturned hnext hst
    · exact h.pollReturned hnext hst
    · obtain ⟨mid, hmid, rfl⟩ := Option.map_eq_some_iff.1 hst
      exact h.pollSent hnext hmid
  | pollHere result tail =>
    obtain ⟨job, hnext, hst⟩ := Option.bind_eq_some_iff.1 hst
    obtain ⟨-, hst⟩ := Option.ite_none_right_eq_some.1 hst
    exact h.pollReturned hnext hst
  | receive tail =>
    obtain ⟨⟨node, i⟩, hwaiting, hst⟩ := Option.bind_eq_some_iff.1 hst
    obtain ⟨e, hget, hst⟩ := Option.bind_eq_some_iff.1 hst
    split at hst
    · next response hstage =>
      refine h.deliver ?_ hst
      rintro _ _ _ hwaits ⟨⟩
      rw [hwaiting] at hwaits
      cases hwaits
      exact ⟨e, hget, hstage⟩
    · cases hst
  | giveUp reason =>
    refine h.deliver ?_ hst
    rintro _ _ _ - ⟨⟩

theorem Inv.reach {c₀ : Cluster} (h₀ : c₀.Begins) (h : (cluster cfg names).Reach c₀ c) :
    c.Inv fun node => (c₀.nodes node).worker.world.starts.length :=
  h.invariant h₀.inv fun _ _ _ _ hinv hst => hinv.step hst

/-! ### The result -/

/-- A process of the job was started there, in the life of the controller that began with `c₀`. -/
def StartedSince (c₀ c : Cluster) (node place : ℕ) (key : Key) : Prop :=
  (c₀.nodes node).worker.world.starts.length ≤ place ∧
    ∃ start, (c.nodes node).worker.world.starts[place]? = some start ∧ start.key = key

/-- For the job at most one process was started, over all nodes together. -/
def StartedOnce (c₀ c : Cluster) (key : Key) : Prop :=
  ∀ node place other place', StartedSince c₀ c node place key →
    StartedSince c₀ c other place' key → node = other ∧ place = place'

/-- A launch of a job is made only after every earlier one either sent nothing or was refused. -/
def LaunchedInTurn (c : Cluster) : Prop :=
  c.attempts.Pairwise fun earlier later => earlier.key = later.key →
    earlier.Unsent ∨ earlier.Refused

/-- A process was started by a launch that is spent. -/
theorem Inv.started {c₀ : Cluster}
    (h : c.Inv fun node => (c₀.nodes node).worker.world.starts.length) {node place : ℕ} {key : Key}
    (hstarted : StartedSince c₀ c node place key) (hforeign : key ∉ c.foreign) :
    ∃ attempt ∈ c.attempts, attempt.key = key ∧ attempt.Spent ∧ attempt.node = node ∧
      ∃ i, attempt.exchange = some i ∧ ∃ e : Exchange,
        (c.nodes node).exchanges[i]? = some e ∧ e.started = some place := by
  obtain ⟨hplace, start, hget, rfl⟩ := hstarted
  obtain ⟨i, e, hexchange, hop, hkey, hstart⟩ := (h.node node).starts place start hplace hget
  obtain ⟨attempt, hmem, hattempt, rfl, hi⟩ := h.sender node i e hexchange hop (hkey ▸ hforeign)
  refine ⟨attempt, hmem, hattempt.trans hkey,
    ⟨fun hunsent => ?_, fun ⟨reason, hrefused⟩ => ?_⟩, rfl, i, hi, e, hexchange, hstart⟩
  · rw [hunsent.1] at hi
    cases hi
  · obtain ⟨e', hget', -, -, hstage⟩ := h.exchange attempt hmem i hi
    obtain rfl := Option.some.inj (hexchange.symm.trans hget')
    obtain ⟨hostPid, hlaunched⟩ := (h.node _).started i e hexchange (by simp [hstart])
    rw [hstage reason hrefused] at hlaunched
    cases hlaunched

/-- **In one life of the controller at most one process is started for a job**, over all nodes
together, and a launch is made only after every earlier one sent nothing or was turned down. -/
theorem launched_atMostOnce {c₀ : Cluster} (h₀ : c₀.Begins)
    (h : (cluster cfg names).Reach c₀ c) :
    (∀ key, key ∉ c.foreign → StartedOnce c₀ c key) ∧ c.LaunchedInTurn := by
  have hinv := Inv.reach h₀ h
  refine ⟨fun key hforeign node place other place' hfirst hsecond => ?_, hinv.order⟩
  obtain ⟨a, ha, rfl, hspentA, rfl, i, hi, e, hget, hplace⟩ := hinv.started hfirst hforeign
  obtain ⟨b, hb, hkey, hspentB, rfl, j, hj, e', hget', hplace'⟩ := hinv.started hsecond hforeign
  obtain rfl := hinv.spent_unique ha hb hkey.symm hspentA hspentB
  obtain rfl := Option.some.inj (hi.symm.trans hj)
  obtain rfl := Option.some.inj (hget.symm.trans hget')
  exact ⟨rfl, Option.some.inj (hplace.symm.trans hplace')⟩

end Cluster

/-- A controller of two other machines. -/
def twoNodes : Config := ⟨[⟨"a", some "a"⟩, ⟨"b", some "b"⟩], "/home/roster"⟩

/-- Nothing has happened yet. -/
def Cluster.init : Cluster where
  scheduler := .init [.new ⟨4, 8192, []⟩, .new ⟨4, 8192, []⟩]
  nodes _ := ⟨Worker.fresh, [], none⟩
  results := []
  waiting := none
  attempts := []
  foreign := []

theorem Cluster.init_begins : Cluster.init.Begins where
  jobs := (SchedulerState.Fresh.init _).jobsInv
  phase := rfl
  nodes _ := ⟨rfl, rfl, by rintro _ ⟨⟩⟩
  results := rfl
  waiting := rfl
  attempts := rfl
  foreign := rfl

/-- A tick up to the launches of two jobs that were submitted. -/
def admits : List ClusterEvent :=
  [.scheduler .flushDone, .scheduler (.cascade 2), .scheduler .flushDone,
    .scheduler (.admitQueued [true, true])]

/-- The first launch gets no connection; at the next tick it is sent, and the reply comes too late:
the node's daemon goes down right after it has started the job, and is started again without scopes.
-/
def lateReply : List ClusterEvent :=
  [.scheduler (.submit "r" twoJobs twoJobs.jobs 0 true fun _ => true), .scheduler .tick,
    .scheduler (.flushed true 1)] ++ admits ++
  [.launch true (.error "refused"), .launched, .scheduler (.launchesApplied 3),
    .scheduler .flushDone, .scheduler .collect, .scheduler (.pollsApplied 4), .scheduler .flushDone,
    .scheduler .tick] ++ admits ++
  [.launch true (.ok ()), .giveUp "no reply", .node 0 (.dispatch 0), .node 0 .look, .node 0 .look,
    .node 0 .look, .node 0 (.spawn 7), .node 0 (.restart false), .launched,
    .scheduler (.launchesApplied 5)]

/-- The job runs there, and it was started once. -/
theorem lateReply_startedOnce : ∃ c : Cluster,
    (findJob c.scheduler.daemon.runs firstKey).map JobInstance.state = some .running ∧
    (c.nodes 0).worker.world.starts.map Start.key = [firstKey] ∧ c.attempts.length = 2 ∧
    Cluster.StartedOnce .init c firstKey ∧ c.LaunchedInTurn := by
  have hrun : (LTS.performs (Cluster.perform twoNodes fun _ => jobNames [] "/root") .init
      lateReply).map (fun c => ((findJob c.scheduler.daemon.runs firstKey).map JobInstance.state,
        (c.nodes 0).worker.world.starts.map Start.key, c.attempts.length, c.foreign)) =
      some (some .running, [firstKey], 2, []) := by
    decide +kernel
  obtain ⟨c, hc, heq⟩ := Option.map_eq_some_iff.1 hrun
  obtain ⟨hstate, hstarts, hattempts, hforeign⟩ : _ ∧ _ ∧ _ ∧ _ := by
    simpa only [Prod.mk.injEq] using heq
  have hreach : (cluster twoNodes fun _ => jobNames [] "/root").Reach .init c :=
    (LTS.Reach.of_performs (G := fun _ _ => True) hc fun _ _ _ => trivial).of_guard
  obtain ⟨honce, hturn⟩ := Cluster.launched_atMostOnce Cluster.init_begins hreach
  exact ⟨c, hstate, hstarts, hattempts, honce firstKey (by simp [hforeign]), hturn⟩

end Roster
