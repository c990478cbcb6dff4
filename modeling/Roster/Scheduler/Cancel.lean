import Roster.Scheduler.JobStep
import Roster.Scheduler.Qualified

/-!
# Cancelling a job

A Cancel request marks the run's Running jobs and then stops their processes; the scheduler ends a
marked job as Cancelled.  It goes by the flag it copied before it polled: a mark that comes after
the snapshot and before the exit is applied is not seen, and the job ends as Failed, or even as
Succeeded (`cancelled_iff`).
-/

namespace Roster

/-! ### Snapshots -/

/-- What a step does while polls are under way: it applies them, leaves them alone, or notes one
answer. -/
theorem Step.polling {cfg : Config} {s s' : SchedulerState} {label : Label}
    (h : Step cfg s label s') {todo : List RunningJob} {entries : List PollEntry}
    (hphase : s.phase = .polling todo entries) :
    (∃ now, label = .pollsApplied now) ∨ s'.phase = s.phase ∨
      ∃ job rest result tail, todo = job :: rest ∧ label = .polled result tail ∧
        s'.phase = .polling rest (entries ++ [job.entry result tail]) := by
  cases h with
  | submit _ _ _ => exact .inr (.inl rfl)
  | cancel _ => exact .inr (.inl rfl)
  | reorderRuns _ => exact .inr (.inl rfl)
  | reorderJobs _ _ => exact .inr (.inl rfl)
  | @polled _ _ job rest entries' result tail =>
    obtain ⟨rfl, rfl⟩ := Phase.polling.inj hphase
    exact .inr (.inr ⟨job, rest, result, tail, rfl, rfl, rfl⟩)
  | pollsApplied _ => exact .inl ⟨_, rfl⟩
  | flushDone next => cases next <;> cases hphase
  | _ => cases hphase

/-- Polls of the jobs in `snapshot` are under way, with the flags it had. -/
def PollsOf (snapshot : List RunningJob) : Phase → Prop
  | .polling todo entries => (∀ job ∈ todo, job ∈ snapshot) ∧
      ∀ entry ∈ entries, ∃ job ∈ snapshot, entry.key = job.key ∧ entry.cancelling = job.cancelling
  | _ => False

theorem Step.pollsOf_collect {cfg : Config} {s s' : SchedulerState}
    (h : Step cfg s .collect s') : PollsOf (collectRunning s.daemon.runs) s'.phase := by
  cases h with
  | collect => exact ⟨fun _ hjob => hjob, by simp⟩

/-- Until they are applied, the polls under way are those of the snapshot. -/
theorem Step.pollsOf {cfg : Config} {s s' : SchedulerState} {label : Label}
    (h : Step cfg s label s') {snapshot : List RunningJob} (hpolls : PollsOf snapshot s.phase)
    (honce : ∀ now, label ≠ .pollsApplied now) : PollsOf snapshot s'.phase := by
  cases hphase : s.phase with
  | polling todo entries =>
    rw [hphase] at hpolls
    obtain ⟨htodo, hentries⟩ := hpolls
    rcases h.polling hphase with ⟨now, hlabel⟩ | hsame | ⟨job, rest, result, tail, rfl, -, hphase'⟩
    · exact absurd hlabel (honce now)
    · rw [hsame, hphase]
      exact ⟨htodo, hentries⟩
    · rw [hphase']
      rw [List.forall_mem_cons] at htodo
      refine ⟨htodo.2, fun answer hanswer => ?_⟩
      rcases List.mem_append.1 hanswer with hanswer | hanswer
      · exact hentries answer hanswer
      · obtain rfl := List.mem_singleton.1 hanswer
        exact ⟨job, htodo.1, rfl, rfl⟩
  | _ => rw [hphase] at hpolls; exact hpolls.elim

theorem Step.pollsApplied_eq {cfg : Config} {s s' : SchedulerState} {now : DateTime}
    (h : Step cfg s (.pollsApplied now) s') {entries : List PollEntry}
    (hphase : s.phase = .polling [] entries) :
    ∃ applied, applyPolls now s.daemon entries = .ok applied ∧ s'.daemon = applied.daemon := by
  cases h with
  | pollsApplied hok =>
    obtain ⟨-, rfl⟩ := Phase.polling.inj hphase
    exact ⟨_, hok, rfl⟩

/-! ### Applying an exit -/

theorem PolledJob.exited_eq {now : DateTime} {entry : PollEntry} {job job' : JobInstance}
    (h : PolledJob now entry job job') {exitCode : Int32}
    (hexit : entry.result = .ok (.exited exitCode)) :
    job' = job.exited exitCode entry.cancelling entry.tail now := by
  cases h with
  | running hrunning => rw [hexit] at hrunning; cases hrunning
  | unreachable _ herror => rw [hexit] at herror; cases herror
  | failed _ herror => rw [hexit] at herror; cases herror
  | exited _ hexited =>
    rw [hexit] at hexited
    cases hexited
    rfl

/-- Without the flag an exit counts as the job's own. -/
theorem JobInstance.exited_unmarked (job : JobInstance) (exitCode : Int32) (tail : Option String)
    (now : DateTime) : (job.exited exitCode false tail now).state =
      if exitCode = 0 then .succeeded else .failed := by
  unfold exited
  split_ifs <;> simp_all

theorem applyPoll_requalify {now : DateTime} {acc acc' : Applied} {entry : PollEntry}
    (h : applyPoll now acc entry = .ok acc') (hflag : entry.cancelling = true) :
    acc'.daemon.requalify = acc.daemon.requalify := by
  cases applyPoll_eq_ok h with
  | same _ => rfl
  | failed _ _ _ _ => rfl
  | exited _ _ _ => simp [hflag]

/-! ### Jobs and their processes -/

/-- The scheduler, and the exit code of every job whose process has ended. -/
structure Machine where
  sched : SchedulerState
  exits : JobKey → Option Int32

/-- What happens next: a step of the scheduler, or the end of a job's process. -/
inductive MachineEvent
  | sched (label : Label)
  | exit (key : JobKey) (exitCode : Int32)

namespace Machine

/-- A poll answers that a process exited only when it did, and with its exit code. -/
def truthful (m : Machine) : Label → Bool
  | .polled (.ok (.exited exitCode)) _ =>
    match m.sched.phase with
    | .polling (job :: _) _ => decide (m.exits job.key = some exitCode)
    | _ => true
  | _ => true

/-- What an event does. -/
def perform (cfg : Config) (m : Machine) : MachineEvent → Option Machine
  | .sched label =>
    match m.sched.perform cfg label with
    | some (.ok sched) => if m.truthful label then some { m with sched := sched } else none
    | _ => none
  | .exit key exitCode =>
    if m.exits key = none then
      some { m with exits := fun k => if k = key then some exitCode else m.exits k }
    else none

/-- Perform some events. -/
def run (cfg : Config) (m : Machine) (events : List MachineEvent) : Option Machine :=
  events.foldlM (perform cfg) m

end Machine

/-- The scheduler with the jobs' processes. -/
def machine (cfg : Config) : LTS Machine MachineEvent where
  step m event m' := m.perform cfg event = some m'

theorem machine_deterministic (cfg : Config) (m : Machine) (event : MachineEvent) (m₁ m₂ : Machine)
    (h₁ : (machine cfg).step m event m₁) (h₂ : (machine cfg).step m event m₂) : m₁ = m₂ :=
  Option.some.inj (h₁.symm.trans h₂)

theorem machine_trace_of_run {cfg : Config} {m m' : Machine} {events : List MachineEvent}
    (h : m.run cfg events = some m') : (machine cfg).Trace m events m' := by
  unfold Machine.run at h
  induction events generalizing m with
  | nil => obtain rfl := Option.some.inj h; exact .nil m
  | cons event events ih =>
    rw [List.foldlM_cons, Option.bind_eq_bind, Option.bind_eq_some_iff] at h
    obtain ⟨mid, hmid, hrest⟩ := h
    exact .cons hmid (ih hrest)

/-- An event is a step of the scheduler, or ends a process that had not ended. -/
theorem machine_step {cfg : Config} {m m' : Machine} {event : MachineEvent}
    (h : (machine cfg).step m event m') :
    (∃ label, event = .sched label ∧ Step cfg m.sched label m'.sched ∧ m'.exits = m.exits) ∨
      (m'.sched = m.sched ∧ ∃ key exitCode, event = .exit key exitCode ∧ m.exits key = none ∧
        m'.exits = fun k => if k = key then some exitCode else m.exits k) := by
  cases event with
  | sched label =>
    simp only [machine, Machine.perform] at h
    split at h
    · next sched hsched =>
      split at h
      · obtain rfl := Option.some.inj h
        exact .inl ⟨label, rfl, step_of_perform hsched, rfl⟩
      · cases h
    · cases h
  | exit key exitCode =>
    simp only [machine, Machine.perform] at h
    split at h
    · next hnone =>
      obtain rfl := Option.some.inj h
      exact .inr ⟨rfl, key, exitCode, rfl, hnone, rfl⟩
    · cases h

/-- The job is Running and its process has not ended. -/
def Machine.Alive (key : JobKey) (m : Machine) : Prop :=
  (∃ job, findJob m.sched.daemon.runs key = some job ∧ job.state = .running) ∧ m.exits key = none

/-- The job is there and being cancelled. -/
def Machine.Marked (key : JobKey) (m : Machine) : Prop :=
  ∃ job, findJob m.sched.daemon.runs key = some job ∧ job.cancelling = true

/-- Where a controller starts: what holds of the jobs between two steps, and none is marked. -/
structure SchedulerState.Starting (s : SchedulerState) : Prop where
  jobs : JobsInv s
  unmarked : ∀ key job, findJob s.daemon.runs key = some job → job.cancelling = false

theorem SchedulerState.Fresh.starting {s : SchedulerState} (h : s.Fresh) : s.Starting where
  jobs := h.jobsInv
  unmarked key job hjob := by
    obtain ⟨run, hrun, hj⟩ := findJob_eq_some.1 hjob
    obtain ⟨_, _, _, _, _, hspec, rfl⟩ := h.new run (Keyed.mem_of_get? hrun)
    have hmem := Keyed.mem_of_get? hj
    rw [WorkflowRun.jobs_new (Dag.exists_topological hspec).1] at hmem
    obtain ⟨entry, -, rfl⟩ := List.mem_map.1 hmem
    rfl

section Marks

variable {cfg : Config} {m m' : Machine} {event : MachineEvent} {events : List MachineEvent}
  {key : JobKey}

theorem machine_jobsInv (hinv : JobsInv m.sched) (h : (machine cfg).step m event m') :
    JobsInv m'.sched := by
  rcases machine_step h with ⟨label, -, hstep, -⟩ | ⟨hsame, -⟩
  · exact hinv.step hstep
  · rwa [hsame]

/-- A process that has not ended had not ended before. -/
theorem exits_eq_none (h : (machine cfg).Trace m events m') (hnone : m'.exits key = none) :
    m.exits key = none := by
  induction h with
  | nil => exact hnone
  | cons hstep _ ih =>
    have hmid := ih hnone
    rcases machine_step hstep with ⟨_, -, -, hsame⟩ | ⟨-, k, exitCode, -, -, hexits⟩
    · rwa [← hsame]
    · rw [hexits] at hmid
      dsimp only at hmid
      split at hmid
      · cases hmid
      · exact hmid

/-- A job is marked by the Cancel requests that find it Running, and by nothing else. -/
theorem marked_step (hinv : JobsInv m.sched) (h : (machine cfg).step m event m') :
    m'.Marked key ↔ m.Marked key ∨ (event = .sched (.cancel key.1) ∧
      ∃ job, findJob m.sched.daemon.runs key = some job ∧ job.state = .running) := by
  rcases machine_step h with ⟨label, rfl, hstep, -⟩ | ⟨hsame, _, _, rfl, -⟩
  · cases hjob : findJob m.sched.daemon.runs key with
    | none =>
      simp only [Machine.Marked, hjob, reduceCtorEq, false_and, exists_false, and_false, or_self,
        iff_false]
      rintro ⟨job', hjob', hmarked⟩
      obtain ⟨jobSpec, jobSeq, rfl⟩ := hstep.job_new hinv.keysInv hjob hjob'
      cases hmarked
    | some job =>
      obtain ⟨job', hjob', hbecame⟩ := hstep.job hinv.keysInv hjob
      simpa [Machine.Marked, hjob, hjob'] using hbecame.cancelling
  · simp [Machine.Marked, hsame]

theorem marked_trace (key : JobKey) (hinv : JobsInv m.sched) (h : (machine cfg).Trace m events m') :
    m'.Marked key ↔ m.Marked key ∨ (machine cfg).PerformsAt
      (fun mid => ∃ job, findJob mid.sched.daemon.runs key = some job ∧ job.state = .running)
      (.sched (.cancel key.1)) m events := by
  induction h with
  | nil => simp [LTS.performsAt_nil]
  | cons hstep _ ih =>
    rw [ih (machine_jobsInv hinv hstep), marked_step hinv hstep,
      LTS.performsAt_cons (machine_deterministic cfg) hstep, or_assoc]

end Marks

/-! ### A cancelled job ends Cancelled -/

/-- One call of `advance_running`: the snapshot is taken in `m₁`, the jobs are polled while `during`
happens, and the answers `entries` are applied in `m₂`. -/
structure AdvancesRunning (cfg : Config) (m₁ : Machine) (during : List MachineEvent) (m₂ : Machine)
    (entries : List PollEntry) (now : DateTime) (m₃ : Machine) : Prop where
  intro ::
  snapshot : ∃ taken, (machine cfg).step m₁ (.sched .collect) taken ∧
    (machine cfg).Trace taken during m₂
  once : ∀ now, .sched (.pollsApplied now) ∉ during
  answers : m₂.sched.phase = .polling [] entries
  applied : (machine cfg).step m₂ (.sched (.pollsApplied now)) m₃

/-- The exit is applied as that of a cancelled job: the job ends Cancelled, and its cards are not
added to the cards to test. -/
structure EndsCancelled (m₂ : Machine) (entries : List PollEntry) (entry : PollEntry)
    (now : DateTime) (m₃ : Machine) : Prop where
  intro ::
  state : ∃ job, findJob m₃.sched.daemon.runs entry.key = some job ∧ job.state = .cancelled
  cards : ∃ before after acc acc', entries = before ++ entry :: after ∧
    before.foldlM (applyPoll now) ⟨m₂.sched.daemon, []⟩ = .ok acc ∧
    applyPoll now acc entry = .ok acc' ∧ acc'.daemon.requalify = acc.daemon.requalify

section AdvanceRunning

variable {cfg : Config} {m m₁ m₂ m₃ : Machine} {before during : List MachineEvent}
  {entries : List PollEntry} {entry : PollEntry} {now : DateTime}

/-- The answers are those of the jobs in the snapshot, with the flags it had. -/
theorem AdvancesRunning.entry_snapshot (h : AdvancesRunning cfg m₁ during m₂ entries now m₃)
    (hentry : entry ∈ entries) : ∃ job ∈ collectRunning m₁.sched.daemon.runs,
      entry.key = job.key ∧ entry.cancelling = job.cancelling := by
  obtain ⟨⟨taken, htaken, hduring⟩, honce, hanswers, -⟩ := h
  have hpolls : PollsOf (collectRunning m₁.sched.daemon.runs) m₂.sched.phase := by
    refine hduring.invariant (I := fun x =>
      PollsOf (collectRunning m₁.sched.daemon.runs) x.sched.phase) ?_
      fun x event x' hmem hx hstep => ?_
    · rcases machine_step htaken with ⟨label, hlabel, hstep, -⟩ | ⟨-, _, _, hlabel, -⟩
      · obtain rfl := MachineEvent.sched.inj hlabel
        exact hstep.pollsOf_collect
      · cases hlabel
    · rcases machine_step hstep with ⟨label, rfl, hsched, -⟩ | ⟨hsame, -⟩
      · exact hsched.pollsOf hx fun now hlabel => honce now (hlabel ▸ hmem)
      · rwa [hsame]
  rw [hanswers] at hpolls
  exact hpolls.2 entry hentry

/-- An answer carries the flag its job had when the snapshot was taken. -/
theorem AdvancesRunning.cancelling_iff (h : AdvancesRunning cfg m₁ during m₂ entries now m₃)
    (hinv : JobsInv m₁.sched) (hentry : entry ∈ entries) :
    entry.cancelling = true ↔ m₁.Marked entry.key := by
  obtain ⟨running, hrunning, hkey, hflag⟩ := h.entry_snapshot hentry
  obtain ⟨job, hjob, -, hcancelling, -⟩ := mem_collectRunning hinv.keys hrunning
  rw [hflag, hkey, Machine.Marked, hjob, ← hcancelling]
  simp

/-- The exit of a process is applied by the flag of the answer. -/
theorem AdvancesRunning.endsCancelled_iff (h : AdvancesRunning cfg m₁ during m₂ entries now m₃)
    (hinv : JobsInv m₂.sched) (hentry : entry ∈ entries) {exitCode : Int32}
    (hexit : entry.result = .ok (.exited exitCode)) :
    EndsCancelled m₂ entries entry now m₃ ↔ entry.cancelling = true := by
  obtain ⟨-, -, hanswers, happlied⟩ := h
  have hin : AllIn m₂.sched.daemon.runs .running (entries.map PollEntry.key) := by
    have hphase := hinv.phase
    rw [hanswers] at hphase
    exact hphase
  obtain ⟨job, hjob, -⟩ := hin.found _ (List.mem_map_of_mem hentry)
  obtain ⟨applied, hok, hruns⟩ : ∃ applied, applyPolls now m₂.sched.daemon entries = .ok applied ∧
      m₃.sched.daemon = applied.daemon := by
    rcases machine_step happlied with ⟨label, hlabel, hstep, -⟩ | ⟨-, _, _, hlabel, -⟩
    · obtain rfl := MachineEvent.sched.inj hlabel
      exact hstep.pollsApplied_eq hanswers
    · cases hlabel
  -- no other entry is of this job, so its own decides how it ends
  obtain ⟨before, after, acc, acc', hsplit, hbefore, happly, hfound, hend⟩ :=
    foldlM_at (fun acc acc' entry _ (h : applyPoll now acc entry = .ok acc') => applyPoll_kept h)
      hin.nodup hok hentry
  have hended : findJob m₃.sched.daemon.runs entry.key =
      some (job.exited exitCode entry.cancelling entry.tail now) := by
    obtain ⟨job', hjob', hpolled⟩ := applyPoll_job happly (hfound.trans hjob)
    rw [hruns, hend, hjob', hpolled.exited_eq hexit]
  constructor
  · rintro ⟨⟨job', hjob', hstate⟩, -⟩
    obtain rfl := Option.some.inj (hended.symm.trans hjob')
    by_contra hflag
    rw [Bool.not_eq_true] at hflag
    rw [hflag, job.exited_unmarked] at hstate
    split at hstate <;> cases hstate
  · intro hflag
    rw [hflag] at hended
    refine ⟨⟨_, hended, rfl⟩, before, after, acc, acc', hsplit, hbefore, happly, ?_⟩
    exact applyPoll_requalify happly hflag

end AdvanceRunning

/-- **A cancelled job ends Cancelled exactly when the scheduler saw the request in time.**  Say a
Cancel request marked a job while it was Running and its process alive.  When the exit of the
process is applied, the job ends Cancelled, and its cards are not added to the cards to test, if
and only if such a request came before the snapshot that call of `advance_running` took. -/
theorem cancelled_iff {cfg : Config} {m m₁ m₂ m₃ : Machine} (hstart : m.sched.Starting)
    {before during : List MachineEvent} {entries : List PollEntry} {entry : PollEntry}
    {exitCode : Int32} {now : DateTime} (hbefore : (machine cfg).Trace m before m₁)
    (hadvance : AdvancesRunning cfg m₁ during m₂ entries now m₃) (hentry : entry ∈ entries)
    (hexit : entry.result = .ok (.exited exitCode))
    (hcancel : (machine cfg).PerformsAt (Machine.Alive entry.key) (.sched (.cancel entry.key.1)) m
      (before ++ .sched .collect :: during)) :
    EndsCancelled m₂ entries entry now m₃ ↔
      (machine cfg).PerformsAt (Machine.Alive entry.key) (.sched (.cancel entry.key.1)) m
        before := by
  obtain ⟨taken, htaken, hduring⟩ := hadvance.snapshot
  have hinv₁ : JobsInv m₁.sched := hbefore.invariant (I := fun x => JobsInv x.sched) hstart.jobs
    fun _ _ _ _ hinv hstep => machine_jobsInv hinv hstep
  have hinv₂ : JobsInv m₂.sched := hduring.invariant (I := fun x => JobsInv x.sched)
    (machine_jobsInv hinv₁ htaken) fun _ _ _ _ hinv hstep => machine_jobsInv hinv hstep
  have hmarked := marked_trace entry.key hstart.jobs hbefore
  rw [hadvance.endsCancelled_iff hinv₂ hentry hexit, hadvance.cancelling_iff hinv₁ hentry, hmarked]
  constructor
  · rintro (⟨job, hjob, hflag⟩ | ⟨pre, post, mid, rfl, hpre, hrunning⟩)
    · rw [hstart.unmarked _ job hjob] at hflag
      cases hflag
    · rcases (LTS.performsAt_append (machine_deterministic cfg) hbefore).1 hcancel with
        hfirst | ⟨pre', post', mid', -, hpre', -, hnone⟩
      · exact hfirst
      · -- the process was alive after the snapshot, so it was alive at this request too
        obtain ⟨mid₁, hmid₁, hrest⟩ := LTS.Trace.append_iff.1 hbefore
        obtain rfl := LTS.Trace.unique (machine_deterministic cfg) hpre hmid₁
        exact ⟨pre, post, mid, rfl, hpre, hrunning,
          exits_eq_none hrest (exits_eq_none hpre' hnone)⟩
  · rintro ⟨pre, post, mid, hsplit, hpre, hrunning, -⟩
    exact .inr ⟨pre, post, mid, hsplit, hpre, hrunning⟩

/-! ### A request that comes while the job is polled -/

/-- One machine with a card, and no run yet. -/
def emptyMachine : Machine := ⟨.init [.new oneCard], fun _ => none⟩

/-- What happens until the first of two jobs has the card. -/
def startsOnCard : List MachineEvent := givesCard.map .sched

/-- The job's process is killed by a signal, and the poll sees it. -/
def killed : List MachineEvent :=
  [.exit ("r", "a") (-1), .sched (.polled (.ok (.exited (-1))) none)]

/-- The answers that are about to be applied. -/
def Machine.answers (m : Machine) : List PollEntry :=
  match m.sched.phase with
  | .polling [] entries => entries
  | _ => []

theorem Machine.phase_of_answers {m : Machine} {entry : PollEntry} (h : entry ∈ m.answers) :
    m.sched.phase = .polling [] m.answers := by
  unfold answers at h ⊢
  split
  · next hphase => exact hphase
  · next hother =>
    split at h
    · next hphase => exact absurd hphase (hother _)
    · cases h

/-- The exits among the answers. -/
def exitsOf (entries : List PollEntry) : List (JobKey × Int32) :=
  entries.filterMap fun entry =>
    match entry.result with
    | .ok (.exited exitCode) => some (entry.key, exitCode)
    | _ => none

theorem mem_exitsOf {entries : List PollEntry} {key : JobKey} {exitCode : Int32}
    (h : (key, exitCode) ∈ exitsOf entries) :
    ∃ entry ∈ entries, entry.key = key ∧ entry.result = .ok (.exited exitCode) := by
  obtain ⟨entry, hentry, hexit⟩ := List.mem_filterMap.1 h
  refine ⟨entry, hentry, ?_⟩
  split at hexit
  · next hresult =>
    obtain ⟨rfl, rfl⟩ := Prod.mk.inj (Option.some.inj hexit)
    exact ⟨rfl, hresult⟩
  · cases hexit

/-- The call of `advance_running` after `before`, while `during` happens. -/
def advanceAfter (before during : List MachineEvent) : Option (Machine × Machine × Machine) := do
  let m₁ ← emptyMachine.run oneMachine before
  let taken ← m₁.perform oneMachine (.sched .collect)
  let m₂ ← taken.run oneMachine during
  let m₃ ← m₂.perform oneMachine (.sched (.pollsApplied 6))
  return (m₁, m₂, m₃)

theorem advanceAfter_eq_some {before during : List MachineEvent} {m₁ m₂ m₃ : Machine}
    (h : advanceAfter before during = some (m₁, m₂, m₃))
    (honce : ∀ now, .sched (.pollsApplied now) ∉ during) {entry : PollEntry}
    (hentry : entry ∈ m₂.answers) : (machine oneMachine).Trace emptyMachine before m₁ ∧
      AdvancesRunning oneMachine m₁ during m₂ m₂.answers 6 m₃ := by
  simp only [advanceAfter, Option.bind_eq_bind, Option.bind_eq_some_iff, Option.pure_def,
    Option.some.injEq, Prod.mk.injEq] at h
  obtain ⟨_, hbefore, taken, htaken, _, hduring, _, happlied, rfl, rfl, rfl⟩ := h
  exact ⟨machine_trace_of_run hbefore, ⟨taken, htaken, machine_trace_of_run hduring⟩, honce,
    Machine.phase_of_answers hentry, happlied⟩

theorem performsAt_of_run (pre : List MachineEvent) {events : List MachineEvent} {key : JobKey}
    (hpre : ((emptyMachine.run oneMachine pre).map fun m =>
      ((findJob m.sched.daemon.runs key).map JobInstance.state, m.exits key)) =
        some (some .running, none)) {after : List MachineEvent}
    (hevents : events = pre ++ .sched (.cancel key.1) :: after) :
    (machine oneMachine).PerformsAt (Machine.Alive key) (.sched (.cancel key.1)) emptyMachine
      events := by
  obtain ⟨m, hm, hseen⟩ := Option.map_eq_some_iff.1 hpre
  obtain ⟨hjob, hexits⟩ := Prod.mk.inj hseen
  obtain ⟨job, hjob, hstate⟩ := Option.map_eq_some_iff.1 hjob
  exact ⟨pre, after, m, hevents, machine_trace_of_run hm, ⟨job, hjob, hstate⟩, hexits⟩

/-- The request comes after the snapshot, and the signal it sends ends the job: the job ends Failed,
and its card is to be tested. -/
theorem killed_failed : ∃ (m₁ m₂ m₃ : Machine) (entry : PollEntry),
    (machine oneMachine).Trace emptyMachine startsOnCard m₁ ∧
      AdvancesRunning oneMachine m₁ (.sched (.cancel "r") :: killed) m₂ m₂.answers 6 m₃ ∧
      entry ∈ m₂.answers ∧ entry.result = .ok (.exited (-1)) ∧
      (machine oneMachine).PerformsAt (Machine.Alive entry.key) (.sched (.cancel entry.key.1))
        emptyMachine (startsOnCard ++ .sched .collect :: .sched (.cancel "r") :: killed) ∧
      m₂.sched.daemon.requalify = [] ∧ m₃.sched.daemon.requalify = [(0, 0)] ∧
      (findJob m₃.sched.daemon.runs entry.key).map JobInstance.state = some .failed ∧
      ¬ EndsCancelled m₂ m₂.answers entry 6 m₃ := by
  have hrun : (advanceAfter startsOnCard (.sched (.cancel "r") :: killed)).map
      (fun (_, m₂, m₃) => decide (exitsOf m₂.answers = [(("r", "a"), -1)] ∧
        m₂.sched.daemon.requalify = [] ∧ m₃.sched.daemon.requalify = [(0, 0)] ∧
        (findJob m₃.sched.daemon.runs ("r", "a")).map JobInstance.state = some .failed)) =
      some true := by decide
  obtain ⟨⟨m₁, m₂, m₃⟩, hadvance, hseen⟩ := Option.map_eq_some_iff.1 hrun
  obtain ⟨hexits, hfirst, hlast, hstate⟩ := of_decide_eq_true hseen
  obtain ⟨entry, hentry, hkey, hresult⟩ := mem_exitsOf (hexits ▸ List.mem_singleton_self _)
  obtain ⟨htrace, hadvances⟩ := advanceAfter_eq_some hadvance (by simp [killed]) hentry
  refine ⟨m₁, m₂, m₃, entry, htrace, hadvances, hentry, hresult, ?_, hfirst, hlast,
    hkey ▸ hstate, ?_⟩
  · rw [hkey]
    exact performsAt_of_run (startsOnCard ++ [.sched .collect]) (by decide) rfl
  · rintro ⟨⟨job, hjob, hcancelled⟩, -⟩
    rw [← hkey, hjob, Option.map_some, hcancelled] at hstate
    cases hstate

/-- Had it come before the snapshot, the job would have ended Cancelled. -/
theorem killed_cancelled : ∃ (m₁ m₂ m₃ : Machine) (entry : PollEntry),
    (machine oneMachine).Trace emptyMachine (startsOnCard ++ [.sched (.cancel "r")]) m₁ ∧
      AdvancesRunning oneMachine m₁ killed m₂ m₂.answers 6 m₃ ∧
      EndsCancelled m₂ m₂.answers entry 6 m₃ := by
  have hrun : (advanceAfter (startsOnCard ++ [.sched (.cancel "r")]) killed).map
      (fun (_, m₂, _) => exitsOf m₂.answers) = some [(("r", "a"), -1)] := by decide
  obtain ⟨⟨m₁, m₂, m₃⟩, hadvance, hexits⟩ := Option.map_eq_some_iff.1 hrun
  obtain ⟨entry, hentry, hkey, hresult⟩ := mem_exitsOf (hexits ▸ List.mem_singleton_self _)
  obtain ⟨htrace, hadvances⟩ := advanceAfter_eq_some hadvance (by simp [killed]) hentry
  have hcancel : ∀ {events after}, events = startsOnCard ++ .sched (.cancel "r") :: after →
      (machine oneMachine).PerformsAt (Machine.Alive entry.key) (.sched (.cancel entry.key.1))
        emptyMachine events := by
    intro events after hevents
    rw [hkey]
    exact performsAt_of_run startsOnCard (by decide) hevents
  exact ⟨m₁, m₂, m₃, entry, htrace, hadvances,
    (cancelled_iff (SchedulerState.Fresh.init _).starting htrace hadvances hentry hresult
      (hcancel (List.append_assoc _ _ _))).2 (hcancel rfl)⟩

end Roster
