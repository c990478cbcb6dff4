import Roster.Scheduler.Cancel

/-!
# Cancelling a run

A Cancel request touches the run's Running jobs only.  A job that waits for one of them, directly or
through other Pending jobs, never starts: what it waits for does not succeed any more (`Stops`).
All others are launched as if nothing had happened: a Queued job, one that is placed already, and a
Pending one that waits for no Running job.  So a request ends its run exactly when none of these is
there (`Halts`, `cancel_stops`).
-/

namespace Roster

/-! ### Jobs that do not succeed any more -/

/-- A poll is under way that can still end the job as Succeeded, whatever marks it now: it went out
without the flag, and it is not answered yet or the process exited with 0. -/
def Phase.MaySucceed (key : JobKey) : Phase → Prop
  | .polling todo entries => (∃ job ∈ todo, job.key = key ∧ job.cancelling = false) ∨
      ∃ entry ∈ entries, entry.key = key ∧ entry.cancelling = false ∧
        entry.result = .ok (.exited 0)
  | _ => False

/-- The job will not end Succeeded: it is Running, with `P`, and is not going to be, it ended
otherwise, or it waits for such a job. -/
inductive Stops (P : JobInstance → Prop) (s : SchedulerState) (runId : String) : String → Prop
  | running {id : String} {job : JobInstance} : findJob s.daemon.runs (runId, id) = some job →
      job.state = .running → P job → ¬ s.phase.MaySucceed (runId, id) → Stops P s runId id
  | bad {id : String} {job : JobInstance} : findJob s.daemon.runs (runId, id) = some job →
      job.state.isBad = true → Stops P s runId id
  | waits {id dep : String} {job : JobInstance} : findJob s.daemon.runs (runId, id) = some job →
      job.state = .pending → dep ∈ job.spec.dependsOn → Stops P s runId dep → Stops P s runId id

/-- Every job of the run is Running, has ended, or is Pending and will not be queued. -/
def Halts (P : JobInstance → Prop) (s : SchedulerState) (runId : String) : Prop :=
  ∀ id job, findJob s.daemon.runs (runId, id) = some job →
    job.state = .running ∨ job.state.isTerminal = true ∨
      (job.state = .pending ∧ Stops P s runId id)

/-- The step launches the job of that key. -/
def Launches (s : SchedulerState) (label : Label) (key : JobKey) : Prop :=
  ∃ task tasks outcomes results, s.phase = .launching (task :: tasks) outcomes ∧
    label = .launched results ∧ task.key = key

theorem Stops.state_ne {P : JobInstance → Prop} {s : SchedulerState} {runId id : String}
    (h : Stops P s runId id) {job : JobInstance}
    (hjob : findJob s.daemon.runs (runId, id) = some job) : job.state ≠ .succeeded := by
  cases h with
  | running hjob' hstate _ _ =>
    obtain rfl := Option.some.inj (hjob.symm.trans hjob')
    rw [hstate]
    decide
  | bad hjob' hbad =>
    obtain rfl := Option.some.inj (hjob.symm.trans hjob')
    intro hstate
    rw [hstate] at hbad
    cases hbad
  | waits hjob' hstate _ _ =>
    obtain rfl := Option.some.inj (hjob.symm.trans hjob')
    rw [hstate]
    decide

/-- What waits for a job that does not succeed is not queued. -/
theorem Stops.depsSucceeded {P : JobInstance → Prop} {s : SchedulerState} {runId dep : String}
    (h : Stops P s runId dep) {run : WorkflowRun} (hrun : findRun s.daemon.runs runId = some run)
    {job : JobInstance} (hdep : dep ∈ job.spec.dependsOn) : run.depsSucceeded job = false := by
  rw [Bool.eq_false_iff, ne_eq, WorkflowRun.depsSucceeded_iff]
  intro hall
  obtain ⟨depJob, hdepJob, hstate⟩ := Option.map_eq_some_iff.1 (hall dep hdep)
  exact h.state_ne (findJob_eq_some.2 ⟨run, hrun, hdepJob⟩) hstate

/-- A Pending job that does not succeed any more is not queued. -/
theorem Stops.not_queued {P : JobInstance → Prop} {s : SchedulerState} {runId id : String}
    (h : Stops P s runId id) {job : JobInstance}
    (hjob : findJob s.daemon.runs (runId, id) = some job) (hpending : job.state = .pending)
    {run : WorkflowRun} (hrun : findRun s.daemon.runs runId = some run) :
    run.depsSucceeded job = false := by
  cases h with
  | running hjob' hstate _ _ =>
    obtain rfl := Option.some.inj (hjob.symm.trans hjob')
    rw [hpending] at hstate
    cases hstate
  | bad hjob' hbad =>
    obtain rfl := Option.some.inj (hjob.symm.trans hjob')
    rw [hpending] at hbad
    cases hbad
  | waits hjob' _ hdep hstops =>
    obtain rfl := Option.some.inj (hjob.symm.trans hjob')
    exact hstops.depsSucceeded hrun hdep

section Steps

variable {cfg : Config} {s s' : SchedulerState} {label : Label} {runId : String}

/-- A step that leads to polls under way was taken under them, or took the snapshot. -/
theorem Step.of_polling (h : Step cfg s label s') {todo : List RunningJob}
    {entries : List PollEntry} (hphase : s'.phase = .polling todo entries) :
    (∃ todo entries, s.phase = .polling todo entries) ∨
      (s'.daemon = s.daemon ∧ todo = collectRunning s.daemon.runs ∧ entries = []) := by
  cases h with
  | submit _ _ _ => exact .inl ⟨_, _, hphase⟩
  | cancel _ => exact .inl ⟨_, _, hphase⟩
  | reorderRuns _ => exact .inl ⟨_, _, hphase⟩
  | reorderJobs _ _ => exact .inl ⟨_, _, hphase⟩
  | polled => exact .inl ⟨_, _, rfl⟩
  | collect =>
    obtain ⟨rfl, rfl⟩ := Phase.polling.inj hphase
    exact .inr ⟨rfl, rfl, rfl⟩
  | flushDone next => cases next <;> cases hphase
  | _ => cases hphase

/-- A poll that can end a job as Succeeded was under way, or went out now, without the flag. -/
theorem Step.maySucceed (hinv : JobsInv s) (h : Step cfg s label s') {key : JobKey}
    (hmay : s'.phase.MaySucceed key) : s.phase.MaySucceed key ∨
      ∃ job, findJob s.daemon.runs key = some job ∧ job.cancelling = false := by
  cases hphase : s'.phase with
  | polling todo entries =>
    rcases h.of_polling hphase with ⟨todo₀, entries₀, hphase₀⟩ | ⟨-, rfl, rfl⟩
    · rcases h.polling hphase₀ with ⟨now, rfl⟩ | hsame | ⟨job, rest, result, tail, rfl, -, hnext⟩
      · cases h
        cases hphase
      · exact .inl (hsame ▸ hmay)
      · left
        rw [hphase₀]
        rw [hnext] at hmay
        rcases hmay with ⟨later, hlater, hkey⟩ | ⟨entry, hentry, hkey, hflag, hresult⟩
        · exact .inl ⟨later, List.mem_cons_of_mem _ hlater, hkey⟩
        · rcases List.mem_append.1 hentry with hentry | hentry
          · exact .inr ⟨entry, hentry, hkey, hflag, hresult⟩
          · obtain rfl := List.mem_singleton.1 hentry
            exact .inl ⟨job, List.mem_cons_self, hkey, hflag⟩
    · rw [hphase] at hmay
      rcases hmay with ⟨job, hjob, rfl, hflag⟩ | ⟨entry, hentry, -⟩
      · obtain ⟨instance', hfound, -, hsame, -⟩ := mem_collectRunning hinv.keys hjob
        exact .inr ⟨instance', hfound, hsame.trans hflag⟩
      · cases hentry
  | _ => rw [hphase] at hmay; exact hmay.elim

/-- A job that does not succeed any more does not after any step. -/
theorem Stops.step (hinv : JobsInv s) (h : Step cfg s label s') {id : String}
    (hstops : Stops (fun job => job.cancelling = true) s runId id) :
    Stops (fun job => job.cancelling = true) s' runId id := by
  induction hstops with
  | @running id job hjob hrunning hflag hmay =>
    obtain ⟨job', hjob', hbecame⟩ := h.job hinv.keysInv hjob
    have hflag' := hbecame.cancelling.2 (.inl hflag)
    -- a poll that may succeed was under way before, or is begun for a job that is not marked
    have hmay' : ¬ s'.phase.MaySucceed (runId, id) := by
      intro hmay'
      rcases h.maySucceed hinv hmay' with hbefore | ⟨job₀, hjob₀, hunmarked⟩
      · exact hmay hbefore
      · obtain rfl := Option.some.inj (hjob.symm.trans hjob₀)
        rw [hflag] at hunmarked
        cases hunmarked
    cases hbecame with
    | same _ => exact .running hjob' hrunning hflag' hmay'
    | marked _ => exact .running hjob' (job.markCancelling_same.2.2.1.trans hrunning) hflag' hmay'
    | queued _ hpending _ => rw [hrunning] at hpending; cases hpending
    | skipped _ hwaits _ => rw [hrunning] at hwaits; rcases hwaits with hs | hs <;> cases hs
    | launched _ _ _ hqueued _ => rw [hrunning] at hqueued; cases hqueued
    | @polled entries entry _ _ hphase hentry hkey _ hpolled =>
      cases hpolled with
      | running _ => exact .running hjob' hrunning hflag' hmay'
      | unreachable _ _ => exact .running hjob' hrunning hflag' hmay'
      | failed _ _ => exact .bad hjob' rfl
      | exited exitCode hexit =>
        refine .bad hjob' ?_
        cases hcancelling : entry.cancelling with
        | true => rfl
        | false =>
          rw [job.exited_unmarked, if_neg]
          · rfl
          · rintro rfl
            exact hmay (hphase ▸ .inr ⟨entry, hentry, hkey, hcancelling, hexit⟩)
  | @bad id job hjob hbad =>
    obtain ⟨job', hjob', hbecame⟩ := h.job hinv.keysInv hjob
    exact .bad hjob' (by rw [hbecame.terminal (JobState.isTerminal_of_isBad hbad), hbad])
  | @waits id dep job hjob hpending hdep hstops ih =>
    obtain ⟨job', hjob', hbecame⟩ := h.job hinv.keysInv hjob
    cases hbecame with
    | same _ => exact .waits hjob' hpending hdep ih
    | marked hrunning => rw [hpending] at hrunning; cases hrunning
    -- the job it waits for stops, so it is not queued
    | queued hrun _ hdeps =>
      rw [hstops.depsSucceeded hrun hdep] at hdeps
      cases hdeps
    | skipped _ _ _ => exact .bad hjob' rfl
    | launched _ _ _ hqueued _ => rw [hpending] at hqueued; cases hqueued
    | polled _ _ _ hrunning _ => rw [hpending] at hrunning; cases hrunning

/-- A run that halts does after any step. -/
theorem Halts.step (hinv : JobsInv s) (h : Step cfg s label s') {run : WorkflowRun}
    (hrun : findRun s.daemon.runs runId = some run)
    (hhalts : Halts (fun job => job.cancelling = true) s runId) :
    Halts (fun job => job.cancelling = true) s' runId := by
  intro id job' hjob'
  obtain ⟨job, hjob, hbecame⟩ := h.job_before hinv.keysInv hrun hjob'
  rcases hhalts id job hjob with hrunning | hterm | ⟨hpending, hstops⟩
  · exact (hbecame.running hrunning).imp_right .inl
  · exact .inr (.inl (by rw [hbecame.terminal hterm, hterm]))
  · have hstops' := hstops.step hinv h
    cases hbecame with
    | same _ => exact .inr (.inr ⟨hpending, hstops'⟩)
    | marked hrunning => rw [hpending] at hrunning; cases hrunning
    | queued hrun' _ hdeps =>
      rw [hstops.not_queued hjob hpending hrun'] at hdeps
      cases hdeps
    | skipped _ _ _ => exact .inr (.inl rfl)
    | launched _ _ _ hqueued _ => rw [hpending] at hqueued; cases hqueued
    | polled _ _ _ hrunning _ => rw [hpending] at hrunning; cases hrunning

/-- The Cancel request marks what is Running, so what waits for it stops. -/
theorem Stops.cancel {id : String} (h : Stops (fun _ => True) s runId id) :
    Stops (fun job => job.cancelling = true)
      { s with daemon := { s.daemon with runs := cancelRun s.daemon.runs runId } } runId id := by
  have hmarked : ∀ {id job}, findJob s.daemon.runs (runId, id) = some job →
      findJob (cancelRun s.daemon.runs runId) (runId, id) = some job.markCancelling := by
    intro id job hjob
    rw [findJob_cancelRun, if_pos rfl, hjob, Option.map_some]
  induction h with
  | running hjob hrunning _ hmay =>
    refine .running (hmarked hjob) (by rw [JobInstance.markCancelling, if_pos hrunning, hrunning])
      (by rw [JobInstance.markCancelling, if_pos hrunning]) hmay
  | @bad _ job hjob hbad =>
    exact .bad (hmarked hjob) (by rw [job.markCancelling_same.2.2.1, hbad])
  | @waits _ _ job hjob hpending hdep _ ih =>
    obtain ⟨-, hspec, hstate, -⟩ := job.markCancelling_same
    exact .waits (hmarked hjob) (hstate.trans hpending) (hspec ▸ hdep) ih

/-- No job of a run that halts is launched. -/
theorem Halts.not_launches {P : JobInstance → Prop} (hinv : JobsInv s) (hhalts : Halts P s runId)
    (id : String) : ¬ Launches s label (runId, id) := by
  rintro ⟨task, tasks, outcomes, results, hphase, -, hkey⟩
  have hin := hinv.phase
  rw [hphase] at hin
  obtain ⟨job, hjob, hqueued⟩ := hin.1.found task.key (by simp)
  rw [hkey] at hjob
  rcases hhalts id job hjob with hs | hs | ⟨hs, -⟩ <;> rw [hqueued] at hs <;> cases hs

end Steps

/-- **A cancelled run starts nothing more, if nothing of it is on its way.**  When a Cancel request
finds every job of the run Running, ended, or Pending and waiting, directly or through Pending jobs,
for one that is Running or ended without success, and no poll is under way that can still end such a
Running job as Succeeded, then no job of the run is launched afterwards. -/
theorem cancel_stops {cfg : Config} {s₀ s s₁ : SchedulerState} (hstart : s₀.Starting)
    (hreach : (scheduler cfg).Reach s₀ s) {runId : String} {run : WorkflowRun}
    (hrun : findRun s.daemon.runs runId = some run) (hhalts : Halts (fun _ => True) s runId)
    (hcancel : (scheduler cfg).step s (.cancel runId) s₁) {x : SchedulerState}
    (hx : (scheduler cfg).Reach s₁ x) (label : Label) (id : String) :
    ¬ Launches x label (runId, id) := by
  have hinv : JobsInv s := hreach.invariant hstart.jobs fun _ _ _ _ hinv hstep =>
    hinv.step (step_of_perform hstep)
  have hstep := step_of_perform hcancel
  have hinv₁ := hinv.step hstep
  have ⟨run₁, hrun₁, _⟩ := hstep.run_kept hinv.keysInv hrun
  -- the Cancel marks every running job of the run
  have hhalts₁ : Halts (fun job => job.cancelling = true) s₁ runId := by
    generalize hlabel : Label.cancel runId = label at hstep
    cases hstep with
    | cancel runId' =>
      obtain rfl := Label.cancel.inj hlabel
      intro id job' hjob'
      dsimp only at hjob'
      rw [findJob_cancelRun, if_pos rfl, Option.map_eq_some_iff] at hjob'
      obtain ⟨job, hjob, rfl⟩ := hjob'
      rw [job.markCancelling_same.2.2.1]
      exact (hhalts id job hjob).imp_right fun h => h.imp_right fun ⟨hpending, hstops⟩ =>
        ⟨hpending, hstops.cancel⟩
    | _ => cases hlabel
  have hafter : JobsInv x ∧ (∃ run, findRun x.daemon.runs runId = some run) ∧
      Halts (fun job => job.cancelling = true) x runId :=
    hx.invariant (I := fun x => JobsInv x ∧ (∃ run, findRun x.daemon.runs runId = some run) ∧
        Halts (fun job => job.cancelling = true) x runId) ⟨hinv₁, ⟨run₁, hrun₁⟩, hhalts₁⟩
      fun _ _ _ _ ⟨hinv, ⟨_, hrun⟩, hhalts⟩ hstep =>
        have hstep := step_of_perform hstep
        have ⟨run', hrun', _⟩ := hstep.run_kept hinv.keysInv hrun
        ⟨hinv.step hstep, ⟨run', hrun'⟩, hhalts.step hinv hstep hrun⟩
  exact hafter.2.2.not_launches hafter.1 id

/-! ### A run that goes on -/

/-- After the first job got the card the run is cancelled: the first job ends, and the second, which
was Queued, gets the card. -/
def goesOn : List Label :=
  [.collect, .polled (.ok (.exited (-1))) none, .pollsApplied 5, .flushed true 5, .flushDone,
    .tick, .flushDone, .cascade 6, .flushDone, .admitQueued [true]]

/-- The keys of the jobs that are about to be launched. -/
def SchedulerState.toLaunch (s : SchedulerState) : List JobKey :=
  match s.phase with
  | .launching tasks _ => tasks.map AdmitTask.key
  | _ => []

theorem SchedulerState.launches {s : SchedulerState} {key : JobKey} {keys : List JobKey}
    (h : s.toLaunch = key :: keys) (results : List (Except ExecutorError JobHandle)) :
    Launches s (.launched results) key := by
  unfold toLaunch at h
  split at h
  · next tasks outcomes hphase =>
    cases tasks with
    | nil => cases h
    | cons task tasks => exact ⟨task, tasks, outcomes, results, hphase, rfl, (List.cons.inj h).1⟩
  · cases h

/-- A Queued job of a cancelled run is launched after the request. -/
theorem queued_launched : ∃ s s₁ x : SchedulerState,
    (scheduler oneMachine).Reach (.init [.new oneCard]) s ∧
      (scheduler oneMachine).step s (.cancel "r") s₁ ∧ (scheduler oneMachine).Reach s₁ x ∧
      (findJob s.daemon.runs ("r", "b")).map JobInstance.state = some .queued ∧
      Launches x (.launched [.ok ⟨8, .process none none⟩]) ("r", "b") ∧
      ∃ x', (scheduler oneMachine).step x (.launched [.ok ⟨8, .process none none⟩]) x' := by
  have hrun : ((SchedulerState.init [.new oneCard]).run oneMachine givesCard).bind (fun s =>
      (s.run oneMachine [.cancel "r"]).bind fun s₁ => (s₁.run oneMachine goesOn).bind fun x =>
        (x.run oneMachine [.launched [.ok ⟨8, .process none none⟩]]).map fun _ =>
          ((findJob s.daemon.runs ("r", "b")).map JobInstance.state, x.toLaunch)) =
      some (some .queued, [("r", "b")]) := by decide
  simp only [Option.bind_eq_some_iff] at hrun
  obtain ⟨s, hs, s₁, hs₁, x, hx, hlast⟩ := hrun
  obtain ⟨x', hx', hseen⟩ := Option.map_eq_some_iff.1 hlast
  obtain ⟨hqueued, hkeys⟩ := Prod.mk.inj hseen
  obtain ⟨_, hcancel, hdone⟩ := SchedulerState.run_cons.1 hs₁
  obtain rfl := Option.some.inj hdone
  obtain ⟨_, hlaunch, -⟩ := SchedulerState.run_cons.1 hx'
  exact ⟨s, _, x, SchedulerState.reach_of_run hs, hcancel, SchedulerState.reach_of_run hx, hqueued,
    x.launches hkeys _, _, hlaunch⟩

/-- No poll is under way. -/
def Phase.isQuiet : Phase → Bool
  | .polling _ _ => false
  | _ => true

theorem Phase.not_maySucceed {phase : Phase} (h : phase.isQuiet = true) (key : JobKey) :
    ¬ phase.MaySucceed key := by
  cases phase with
  | polling _ _ => cases h
  | _ => exact id

/-- Two jobs, the second after the first; the first runs when its run is cancelled, and the second
never starts. -/
theorem waiting_stops : ∃ s s₁ : SchedulerState,
    (scheduler oneMachine).Reach (.init [.new ⟨4, 8192, []⟩]) s ∧
      (scheduler oneMachine).step s (.cancel "r") s₁ ∧
      ∀ x label id, (scheduler oneMachine).Reach s₁ x → ¬ Launches x label ("r", id) := by
  have hrun : ((SchedulerState.init [.new ⟨4, 8192, []⟩]).run oneMachine startsFirst).bind (fun s =>
      (s.run oneMachine [.cancel "r"]).bind fun s₁ => (findRun s.daemon.runs "r").map fun run =>
        decide (s.phase.isQuiet = true ∧ (run.job? "a").map JobInstance.state = some .running ∧
          ∀ job ∈ run.jobs, job.jobId = "a" ∨ (job.state = .pending ∧ "a" ∈ job.spec.dependsOn))) =
      some true := by decide
  simp only [Option.bind_eq_some_iff] at hrun
  obtain ⟨s, hs, s₁, hs₁, hlast⟩ := hrun
  obtain ⟨run, hfound, hseen⟩ := Option.map_eq_some_iff.1 hlast
  obtain ⟨hquiet, hfirst, hjobs⟩ := of_decide_eq_true hseen
  obtain ⟨first, hfirst, hrunning⟩ := Option.map_eq_some_iff.1 hfirst
  have hstops : Stops (fun _ => True) s "r" "a" :=
    .running (findJob_eq_some.2 ⟨run, hfound, hfirst⟩) hrunning trivial
      (Phase.not_maySucceed hquiet _)
  have hhalts : Halts (fun _ => True) s "r" := by
    intro id job hjob
    obtain ⟨run', hfound', hj⟩ := findJob_eq_some.1 hjob
    obtain rfl := Option.some.inj (hfound.symm.trans hfound')
    rcases hjobs job (Keyed.mem_of_get? hj) with hid | ⟨hpending, hdep⟩
    · obtain rfl : id = "a" := (findJob_jobId hjob).symm.trans hid
      obtain rfl := Option.some.inj (hj.symm.trans hfirst)
      exact .inl hrunning
    · exact .inr (.inr ⟨hpending, .waits hjob hpending hdep hstops⟩)
  have hreach := SchedulerState.reach_of_run hs
  obtain ⟨_, hcancel, -⟩ := SchedulerState.run_cons.1 hs₁
  exact ⟨s, _, hreach, hcancel, fun x label id hx =>
    cancel_stops (SchedulerState.Fresh.init _).starting hreach hfound hhalts hcancel hx label id⟩

end Roster
