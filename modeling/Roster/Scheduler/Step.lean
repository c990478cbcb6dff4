import Roster.Scheduler.GpuCheck
import Roster.Scheduler.Tick
import Roster.Workflow.Dag
import Roster.LTS.Basic

/-!
# The scheduler as a transition system

One step is one locked section of the scheduler's task, one answer of an executor it waits for, or
one request, which can come in between any two of them.  A label carries what the environment
decides: clocks, which nodes are up, readings, what launches, polls and cancels return, whether a
store write succeeded.

`perform` computes the step; it is `none` when the label does not belong to the phase the scheduler
is in, and an error when a section panics, which ends the process.  `Step` says, label by
label, what a step did; every proof about runs goes by cases on it.
-/

namespace Roster

/-- What happens next. -/
inductive Label
  /-- Submit: the document was accepted under the iteration order `iter`, and the id is new. -/
  | submit (runId : String) (spec : WorkflowSpec) (iter : List JobSpec) (now : DateTime)
      (runWritten : Bool) (jobWritten : String → Bool)
  | cancel (runId : String)
  /-- The map of runs is iterated in another order from here on. -/
  | reorderRuns (runs : List WorkflowRun)
  /-- So is the map of a run's jobs. -/
  | reorderJobs (runId : String) (jobs : List JobInstance)
  /-- `check_gpus` begins. -/
  | checkGpus
  /-- A qualification was polled, and cancelled if it is past its timeout. -/
  | qualificationPolled (result : Except ExecutorError PollResult)
      (cancelled : Except ExecutorError Unit) (now : Instant)
  | qualificationsFinished
  | gpusBlocked (views : List NodeView) (utc : DateTime) (now : Instant)
  | qualificationLaunched (result : Except ExecutorError JobHandle) (now : Instant)
  /-- `check_gpus` ends. -/
  | gpusChecked
  /-- `tick` begins, with `advance_pending`. -/
  | tick
  | flushed (written : Bool) (emittedAt : ℕ)
  | flushDone
  | cascade (now : DateTime)
  | admitQueued (online : List Bool)
  | launched (results : List (Except ExecutorError JobHandle))
  | launchesApplied (now : DateTime)
  | collect
  | polled (result : Except ExecutorError PollResult) (tail : Option String)
  | pollsApplied (now : DateTime)

namespace SchedulerState

/-- Carry a section's result on, unless it panicked. -/
def after {α : Type} (x : Exec α) (f : α → SchedulerState) : Option (Exec SchedulerState) :=
  some (f <$> x)

/-- A section that cannot panic. -/
def next (s : SchedulerState) : Option (Exec SchedulerState) := some (.ok s)

/-- What the scheduler does next, in each phase. -/
def advance (cfg : Config) (s : SchedulerState) : Phase → Label → Option (Exec SchedulerState)
  | .idle, .checkGpus =>
    next { s with
      checks := { s.checks with qualifying := [] }, phase := .finishing s.checks.qualifying [] }
  | .finishing (qualification :: todo) ended, .qualificationPolled result _ now =>
    if qualification.isOver now result then
      next { s with phase := .finishing todo (ended ++ [qualification]) }
    else
      next { s with
        checks := { s.checks with qualifying := s.checks.qualifying ++ [qualification] }
        phase := .finishing todo ended }
  | .finishing [] ended, .qualificationsFinished =>
    after (finishQualifications s.daemon.pools ended) fun pools =>
      { s with daemon := { s.daemon with pools := pools }, phase := .blocking }
  | .blocking, .gpusBlocked views utc now =>
    if views.length = cfg.nodes.length then
      after (blockGpus s.daemon s.checks views utc now) fun (daemon, toQualify) =>
        { s with daemon := daemon, phase := .qualifying toQualify }
    else none
  | .qualifying (card :: todo), .qualificationLaunched result now =>
    after (startQualification s.daemon.pools s.checks card result now) fun (pools, checks) =>
      { daemon := { s.daemon with pools := pools }, checks := checks, phase := .qualifying todo }
  | .qualifying [], .gpusChecked => next { s with phase := .idle }
  | .idle, .tick =>
    let (runs, toWrite) := advancePending s.daemon.runs
    next { s with daemon := { s.daemon with runs := runs }, phase := .flushing toWrite .cascading }
  | .flushing (key :: toWrite) next, .flushed written emittedAt =>
    after (flushTransition cfg s.daemon key written emittedAt) fun daemon =>
      { s with daemon := daemon, phase := .flushing toWrite next }
  | .flushing [] after, .flushDone => next { s with phase := after.phase }
  | .cascading, .cascade now =>
    let (runs, toWrite) := cascadeSkipped s.daemon.runs now
    next { s with daemon := { s.daemon with runs := runs }, phase := .flushing toWrite .admitting }
  | .admitting, .admitQueued online =>
    if online.length = cfg.nodes.length then
      after (Roster.admitQueued s.daemon.runs s.daemon.pools online) fun (tasks, pools) =>
        { s with daemon := { s.daemon with pools := pools }, phase := .launching tasks [] }
    else none
  | .launching (task :: tasks) outcomes, .launched results =>
    if results.length = task.placement.length then
      next { s with phase := .launching tasks (outcomes ++ [task.outcome results]) }
    else none
  | .launching [] outcomes, .launchesApplied now =>
    after (applyLaunches cfg now s.daemon outcomes) fun applied =>
      { s with daemon := applied.daemon, phase := .flushing applied.toWrite .collecting }
  | .collecting, .collect => next { s with phase := .polling (collectRunning s.daemon.runs) [] }
  | .polling (job :: todo) entries, .polled result tail =>
    next { s with phase := .polling todo (entries ++ [job.entry result tail]) }
  | .polling [] entries, .pollsApplied now =>
    after (applyPolls now s.daemon entries) fun applied =>
      { s with daemon := applied.daemon, phase := .flushing applied.toWrite .idle }
  | _, _ => none

/-- One step. -/
def perform (cfg : Config) (s : SchedulerState) : Label → Option (Exec SchedulerState)
  | .submit runId spec iter now runWritten jobWritten =>
    if findRun s.daemon.runs runId = none ∧ iter.isPerm spec.jobs = true ∧
        Dag.validate spec iter = .ok (.ok ()) ∧
        spec.jobs.all (fitsSomeNode s.daemon.pools) = true then
      next { s with daemon := Roster.submit s.daemon runId spec now runWritten jobWritten }
    else none
  | .cancel runId =>
    next { s with daemon := { s.daemon with runs := cancelRun s.daemon.runs runId } }
  | .reorderRuns runs =>
    if s.daemon.runs.isPerm runs then next { s with daemon := { s.daemon with runs := runs } }
    else none
  | .reorderJobs runId jobs =>
    match findRun s.daemon.runs runId with
    | none => none
    | some run =>
      if run.jobs.isPerm jobs then
        next { s with daemon := { s.daemon with
          runs := Keyed.modify WorkflowRun.runId s.daemon.runs runId fun run =>
            { run with jobs := jobs } } }
      else none
  | label => advance cfg s s.phase label

/-- A scheduler that starts with these pools and without any run. -/
def init (pools : List ResourcePool) : SchedulerState where
  daemon := ⟨[], pools, [], ⟨[], []⟩, [], 0, 0⟩
  checks := ⟨[], []⟩
  phase := .idle

/-- Perform some steps. -/
def run (cfg : Config) (s : SchedulerState) : List Label → Option SchedulerState
  | [] => some s
  | label :: labels =>
    match perform cfg s label with
    | some (.ok s') => run cfg s' labels
    | _ => none

end SchedulerState

/-- The scheduler of a controller. -/
def scheduler (cfg : Config) : LTS SchedulerState Label where
  step s label s' := s.perform cfg label = some (.ok s')

theorem SchedulerState.run_cons {cfg : Config} {s s' : SchedulerState} {label : Label}
    {labels : List Label} : s.run cfg (label :: labels) = some s' ↔
      ∃ mid, s.perform cfg label = some (.ok mid) ∧ mid.run cfg labels = some s' := by
  rw [SchedulerState.run]
  split
  · next mid hmid => simp [hmid]
  · next hne =>
      simp only [reduceCtorEq, false_iff]
      rintro ⟨mid, hmid, -⟩
      exact hne mid hmid

theorem SchedulerState.run_append {cfg : Config} {s s' : SchedulerState}
    {labels labels' : List Label} : s.run cfg (labels ++ labels') = some s' ↔
      ∃ mid, s.run cfg labels = some mid ∧ mid.run cfg labels' = some s' := by
  induction labels generalizing s with
  | nil => simp [SchedulerState.run]
  | cons label labels ih =>
    simp only [List.cons_append, SchedulerState.run_cons, ih]
    constructor
    · rintro ⟨first, hfirst, mid, hmid, hrest⟩; exact ⟨mid, ⟨first, hfirst, hmid⟩, hrest⟩
    · rintro ⟨mid, ⟨first, hfirst, hmid⟩, hrest⟩; exact ⟨first, hfirst, mid, hmid, hrest⟩

theorem SchedulerState.trace_of_run {cfg : Config} {s s' : SchedulerState} {labels : List Label}
    (h : s.run cfg labels = some s') : (scheduler cfg).Trace s labels s' := by
  induction labels generalizing s with
  | nil => exact Option.some.inj h ▸ .nil s
  | cons label labels ih =>
    obtain ⟨mid, hmid, hrest⟩ := SchedulerState.run_cons.1 h
    exact .cons hmid (ih hrest)

theorem SchedulerState.reach_of_run {cfg : Config} {s s' : SchedulerState} {labels : List Label}
    (h : s.run cfg labels = some s') : (scheduler cfg).Reach s s' :=
  (SchedulerState.trace_of_run h).reach

/-- Performing labels that meet a guard is a guarded run. -/
theorem SchedulerState.guarded_of_run {cfg : Config} {G : SchedulerState → Label → Prop}
    {s s' : SchedulerState} {labels : List Label} (h : s.run cfg labels = some s')
    (hG : ∀ s, ∀ label ∈ labels, G s label) : ((scheduler cfg).guard G).Reach s s' :=
  .of_run (fun _ => rfl) (fun _ _ _ _ => SchedulerState.run_cons.1) h hG

/-! ### What a step did -/

/-- What a step did, label by label. -/
inductive Step (cfg : Config) : SchedulerState → Label → SchedulerState → Prop
  | submit {s runId spec iter now runWritten jobWritten} :
      findRun s.daemon.runs runId = none → Dag.Accepts spec →
      spec.jobs.all (fitsSomeNode s.daemon.pools) = true →
      Step cfg s (.submit runId spec iter now runWritten jobWritten)
        { s with daemon := Roster.submit s.daemon runId spec now runWritten jobWritten }
  | cancel {s} (runId : String) :
      Step cfg s (.cancel runId)
        { s with daemon := { s.daemon with runs := cancelRun s.daemon.runs runId } }
  | reorderRuns {s runs} : s.daemon.runs.Perm runs →
      Step cfg s (.reorderRuns runs) { s with daemon := { s.daemon with runs := runs } }
  | reorderJobs {s runId run jobs} : findRun s.daemon.runs runId = some run →
      run.jobs.Perm jobs →
      Step cfg s (.reorderJobs runId jobs) { s with daemon := { s.daemon with
        runs := Keyed.modify WorkflowRun.runId s.daemon.runs runId fun run =>
          { run with jobs := jobs } } }
  | checkGpus {daemon checks} :
      Step cfg ⟨daemon, checks, .idle⟩ .checkGpus
        ⟨daemon, { checks with qualifying := [] }, .finishing checks.qualifying []⟩
  | qualificationOver {daemon checks qualification todo ended result cancelled now} :
      qualification.isOver now result = true →
      Step cfg ⟨daemon, checks, .finishing (qualification :: todo) ended⟩
        (.qualificationPolled result cancelled now)
        ⟨daemon, checks, .finishing todo (ended ++ [qualification])⟩
  | qualificationKept {daemon checks qualification todo ended result cancelled now} :
      qualification.isOver now result = false →
      Step cfg ⟨daemon, checks, .finishing (qualification :: todo) ended⟩
        (.qualificationPolled result cancelled now)
        ⟨daemon, { checks with qualifying := checks.qualifying ++ [qualification] },
          .finishing todo ended⟩
  | qualificationsFinished {daemon checks ended pools} :
      finishQualifications daemon.pools ended = .ok pools →
      Step cfg ⟨daemon, checks, .finishing [] ended⟩ .qualificationsFinished
        ⟨{ daemon with pools := pools }, checks, .blocking⟩
  | gpusBlocked {daemon checks views utc now daemon' toQualify} :
      views.length = cfg.nodes.length →
      blockGpus daemon checks views utc now = .ok (daemon', toQualify) →
      Step cfg ⟨daemon, checks, .blocking⟩ (.gpusBlocked views utc now)
        ⟨daemon', checks, .qualifying toQualify⟩
  | qualificationLaunched {daemon checks card todo result now pools checks'} :
      startQualification daemon.pools checks card result now = .ok (pools, checks') →
      Step cfg ⟨daemon, checks, .qualifying (card :: todo)⟩ (.qualificationLaunched result now)
        ⟨{ daemon with pools := pools }, checks', .qualifying todo⟩
  | gpusChecked {daemon checks} :
      Step cfg ⟨daemon, checks, .qualifying []⟩ .gpusChecked ⟨daemon, checks, .idle⟩
  | tick {daemon checks} :
      Step cfg ⟨daemon, checks, .idle⟩ .tick
        ⟨{ daemon with runs := (advancePending daemon.runs).1 }, checks,
          .flushing (advancePending daemon.runs).2 .cascading⟩
  | flushed {daemon checks key toWrite next written emittedAt daemon'} :
      flushTransition cfg daemon key written emittedAt = .ok daemon' →
      Step cfg ⟨daemon, checks, .flushing (key :: toWrite) next⟩ (.flushed written emittedAt)
        ⟨daemon', checks, .flushing toWrite next⟩
  | flushDone {daemon checks} (next : AfterFlush) :
      Step cfg ⟨daemon, checks, .flushing [] next⟩ .flushDone ⟨daemon, checks, next.phase⟩
  | cascade {daemon checks} (now : DateTime) :
      Step cfg ⟨daemon, checks, .cascading⟩ (.cascade now)
        ⟨{ daemon with runs := (cascadeSkipped daemon.runs now).1 }, checks,
          .flushing (cascadeSkipped daemon.runs now).2 .admitting⟩
  | admitQueued {daemon checks online tasks pools} : online.length = cfg.nodes.length →
      Roster.admitQueued daemon.runs daemon.pools online = .ok (tasks, pools) →
      Step cfg ⟨daemon, checks, .admitting⟩ (.admitQueued online)
        ⟨{ daemon with pools := pools }, checks, .launching tasks []⟩
  | launched {daemon checks task tasks outcomes results} :
      results.length = task.placement.length →
      Step cfg ⟨daemon, checks, .launching (task :: tasks) outcomes⟩ (.launched results)
        ⟨daemon, checks, .launching tasks (outcomes ++ [task.outcome results])⟩
  | launchesApplied {daemon checks outcomes now applied} :
      applyLaunches cfg now daemon outcomes = .ok applied →
      Step cfg ⟨daemon, checks, .launching [] outcomes⟩ (.launchesApplied now)
        ⟨applied.daemon, checks, .flushing applied.toWrite .collecting⟩
  | collect {daemon checks} :
      Step cfg ⟨daemon, checks, .collecting⟩ .collect
        ⟨daemon, checks, .polling (collectRunning daemon.runs) []⟩
  | polled {daemon checks job todo entries result tail} :
      Step cfg ⟨daemon, checks, .polling (job :: todo) entries⟩ (.polled result tail)
        ⟨daemon, checks, .polling todo (entries ++ [job.entry result tail])⟩
  | pollsApplied {daemon checks entries now applied} :
      applyPolls now daemon entries = .ok applied →
      Step cfg ⟨daemon, checks, .polling [] entries⟩ (.pollsApplied now)
        ⟨applied.daemon, checks, .flushing applied.toWrite .idle⟩

theorem SchedulerState.after_eq_some {α : Type} {x : Exec α} {f : α → SchedulerState}
    {s : SchedulerState} : SchedulerState.after x f = some (.ok s) ↔ ∃ a, x = .ok a ∧ f a = s := by
  rw [SchedulerState.after, Option.some.injEq, Exec.map_eq_ok]

theorem SchedulerState.next_eq_some {s s' : SchedulerState} :
    s.next = some (.ok s') ↔ s = s' := by
  rw [SchedulerState.next, Option.some.injEq, Except.ok.injEq]

theorem step_of_advance {cfg : Config} {s s' : SchedulerState} {label : Label}
    (h : s.advance cfg s.phase label = some (.ok s')) : Step cfg s label s' := by
  obtain ⟨daemon, checks, phase⟩ := s
  dsimp only [SchedulerState.advance] at h
  split at h
  case h_1 => obtain rfl := SchedulerState.next_eq_some.1 h; exact .checkGpus
  -- one case for each section of the scheduler's task, in the order of `advance`
  case h_2 =>
    split at h
    · next hover => obtain rfl := SchedulerState.next_eq_some.1 h; exact .qualificationOver hover
    · next hover =>
      obtain rfl := SchedulerState.next_eq_some.1 h
      exact .qualificationKept (Bool.eq_false_iff.2 hover)
  case h_3 =>
    obtain ⟨pools, hok, rfl⟩ := SchedulerState.after_eq_some.1 h
    exact .qualificationsFinished hok
  case h_4 =>
    split at h
    · next hlen =>
      obtain ⟨⟨daemon', toQualify⟩, hok, rfl⟩ := SchedulerState.after_eq_some.1 h
      exact .gpusBlocked hlen hok
    · cases h
  case h_5 =>
    obtain ⟨⟨pools, checks'⟩, hok, rfl⟩ := SchedulerState.after_eq_some.1 h
    exact .qualificationLaunched hok
  case h_6 => obtain rfl := SchedulerState.next_eq_some.1 h; exact .gpusChecked
  case h_7 => obtain rfl := SchedulerState.next_eq_some.1 h; exact .tick
  case h_8 =>
    obtain ⟨daemon', hok, rfl⟩ := SchedulerState.after_eq_some.1 h
    exact .flushed hok
  case h_9 => obtain rfl := SchedulerState.next_eq_some.1 h; exact .flushDone _
  case h_10 => obtain rfl := SchedulerState.next_eq_some.1 h; exact .cascade _
  case h_11 =>
    split at h
    · next hlen =>
      obtain ⟨⟨tasks, pools⟩, hok, rfl⟩ := SchedulerState.after_eq_some.1 h
      exact .admitQueued hlen hok
    · cases h
  case h_12 =>
    split at h
    · next hlen => obtain rfl := SchedulerState.next_eq_some.1 h; exact .launched hlen
    · cases h
  case h_13 =>
    obtain ⟨applied, hok, rfl⟩ := SchedulerState.after_eq_some.1 h
    exact .launchesApplied hok
  case h_14 => obtain rfl := SchedulerState.next_eq_some.1 h; exact .collect
  case h_15 => obtain rfl := SchedulerState.next_eq_some.1 h; exact .polled
  case h_16 =>
    obtain ⟨applied, hok, rfl⟩ := SchedulerState.after_eq_some.1 h
    exact .pollsApplied hok
  case h_17 => cases h

theorem step_of_perform {cfg : Config} {s s' : SchedulerState} {label : Label}
    (h : s.perform cfg label = some (.ok s')) : Step cfg s label s' := by
  unfold SchedulerState.perform at h
  split at h
  · split at h
    · next hguard =>
      obtain rfl := SchedulerState.next_eq_some.1 h
      obtain ⟨hfresh, hiter, hval, hfits⟩ := hguard
      exact .submit hfresh ⟨_, List.isPerm_iff.1 hiter, hval⟩ hfits
    · cases h
  · obtain rfl := SchedulerState.next_eq_some.1 h; exact .cancel _
  · split at h
    · next hperm =>
      obtain rfl := SchedulerState.next_eq_some.1 h
      exact .reorderRuns (List.isPerm_iff.1 hperm)
    · cases h
  · split at h
    · cases h
    · next run hrun =>
      split at h
      · next hperm =>
        obtain rfl := SchedulerState.next_eq_some.1 h
        exact .reorderJobs hrun (List.isPerm_iff.1 hperm)
      · cases h
  · exact step_of_advance h

/-- Neither a Submit nor a flush. -/
def Label.Silent : Label → Prop
  | .submit _ _ _ _ _ _ => False
  | .flushed _ _ => False
  | _ => True

/-- What a step is to the rows, the counters and the events: a Submit that takes a run in, a flush
that writes a job and tells of it, or neither. -/
inductive StepKind (cfg : Config) : SchedulerState → Label → SchedulerState → Prop
  | submit {s runId spec iter now runWritten jobWritten} :
      findRun s.daemon.runs runId = none → Dag.Accepts spec →
      StepKind cfg s (.submit runId spec iter now runWritten jobWritten)
        { s with daemon := Roster.submit s.daemon runId spec now runWritten jobWritten }
  | flushed {daemon checks key toWrite next written emittedAt daemon'} :
      flushTransition cfg daemon key written emittedAt = .ok daemon' →
      StepKind cfg ⟨daemon, checks, .flushing (key :: toWrite) next⟩ (.flushed written emittedAt)
        ⟨daemon', checks, .flushing toWrite next⟩
  | silent {s label s'} : label.Silent → StepKind cfg s label s'

theorem Step.kind {cfg : Config} {s s' : SchedulerState} {label : Label}
    (h : Step cfg s label s') : StepKind cfg s label s' := by
  cases h with
  | submit hfresh haccepts _ => exact .submit hfresh haccepts
  | flushed hok => exact .flushed hok
  | _ => exact .silent trivial

end Roster
