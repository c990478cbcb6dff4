import Roster.Daemon.Lives

/-!
# What becomes of a submitted run

`handle_submit` writes the run's row and a row for each job, and answers Submitted whether these
writes succeeded or not; a restart looks for runs with a row of their own and a job stored as not
ended.  A run outlives the controller if its own row was written, and for every job whose row was
not there is a written one that cannot end before that job has a row: any, for a job without
dependencies, as the first tick writes these before it starts anything; for the others one that
waits for it, whichever way its dependencies are followed (`WaitsFor`).
-/

namespace Roster

/-! ### What is written stays -/

/-- The rows of a store are still there in another. -/
structure RunStore.Grows (store store' : RunStore) : Prop where
  runs : ∀ row ∈ store.runs, row ∈ store'.runs
  jobs : ∀ key row, store.row? key = some row → ∃ row', store'.row? key = some row'

namespace RunStore.Grows

variable {store store' store'' : RunStore}

theorem refl (store : RunStore) : store.Grows store := ⟨fun _ h => h, fun _ row h => ⟨row, h⟩⟩

theorem trans (h : store.Grows store') (h' : store'.Grows store'') : store.Grows store'' :=
  ⟨fun row hrow => h'.runs row (h.runs row hrow), fun key row hrow =>
    have ⟨row', hrow'⟩ := h.jobs key row hrow
    h'.jobs key row' hrow'⟩

theorem upsertJob (store : RunStore) (runId : String) (job : JobInstance) (node : Option String) :
    store.Grows (store.upsertJob runId job node) := by
  refine ⟨fun _ h => h, fun key row hrow => ?_⟩
  rw [RunStore.row?_upsertJob]
  split
  · exact ⟨_, rfl⟩
  · exact ⟨row, hrow⟩

theorem interrupt (store : RunStore) (runId jobId : String) (now : DateTime) :
    store.Grows (store.interrupt runId jobId now) := by
  refine ⟨fun _ h => h, fun key row hrow => ?_⟩
  rw [RunStore.row?_interrupt, hrow]
  split
  · exact ⟨_, rfl⟩
  · exact ⟨row, rfl⟩

theorem upsertRun {run : WorkflowRun} (hfresh : ∀ row ∈ store.runs, row.runId ≠ run.runId) :
    store.Grows (store.upsertRun run) := by
  refine ⟨fun row hrow => ?_, fun _ row h => ⟨row, h⟩⟩
  rw [RunStore.upsertRun, Keyed.insert_of_fresh (Keyed.get?_eq_none.2 hfresh)]
  exact List.mem_append_left _ hrow

end RunStore.Grows

/-- Every row names a state. -/
def RunStore.Named (store : RunStore) : Prop :=
  ∀ key row, store.row? key = some row → ∃ state : JobState, row.state = state.asStr

theorem RunStore.Named.upsertJob {store : RunStore} (h : store.Named) (runId : String)
    (job : JobInstance) (node : Option String) : (store.upsertJob runId job node).Named := by
  intro key row hrow
  rw [RunStore.row?_upsertJob] at hrow
  split at hrow
  · obtain rfl := Option.some.inj hrow
    exact ⟨job.state, rfl⟩
  · exact h key row hrow

theorem RunStore.Named.interrupt {store : RunStore} (h : store.Named) (runId jobId : String)
    (now : DateTime) : (store.interrupt runId jobId now).Named := by
  intro key row hrow
  rw [RunStore.row?_interrupt] at hrow
  split at hrow
  · obtain ⟨before, -, rfl⟩ := Option.map_eq_some_iff.1 hrow
    exact ⟨.interrupted, rfl⟩
  · exact h key row hrow

/-- What the writes of a submit do, from what each of them does. -/
theorem submit_store {P : RunStore → Prop} {daemon : DaemonState} {runId : String}
    {spec : WorkflowSpec} {now : DateTime} {runWritten : Bool} {jobWritten : String → Bool}
    (hrun : P (daemon.store.upsertRun (.new runId daemon.runCounter spec daemon.jobCounter now)))
    (hjob : ∀ store runId job node, P store → P (store.upsertJob runId job node))
    (h : P daemon.store) : P (submit daemon runId spec now runWritten jobWritten).store := by
  unfold submit
  dsimp only
  refine List.foldlRecOn _ _ ?_ fun store hstore job _ => ?_
  · split
    · exact hrun
    · exact h
  · split
    · exact hjob _ _ _ _ hstore
    · exact hstore

/-- What a step does to the store, from what single writes do. -/
theorem Step.store {P : RunStore → Prop} {cfg : Config} {s s' : SchedulerState} {label : Label}
    (hinv : JobsInv s) (hok : label.StoreOk s.daemon.store) (h : Step cfg s label s')
    (hrun : ∀ run, (∀ row ∈ s.daemon.store.runs, row.runId ≠ run.runId) →
      P (s.daemon.store.upsertRun run))
    (hjob : ∀ store runId job node, P store → P (store.upsertJob runId job node))
    (hstart : P s.daemon.store) : P s'.daemon.store := by
  cases h.kind with
  | submit _ _ => exact submit_store (hrun _ hok.1) hjob hstart
  | flushed hflushed =>
    obtain rfl : _ = true := hok
    rcases (flushTransition_written hflushed).2 with ⟨-, hstore⟩ | ⟨job, node, -, hstore⟩
    · exact hstore ▸ hstart
    · exact hstore ▸ hjob _ _ _ _ hstart
  | silent hsilent => exact (h.leftToFlush hinv.keysInv hsilent).store ▸ hstart

theorem Interrupts.induction {P : RunStore → Prop} {store store' : RunStore}
    (h : Interrupts store store')
    (hint : ∀ store runId jobId now, store.stateOf (runId, jobId) = .running → P store →
      P (store.interrupt runId jobId now)) (hstart : P store) : P store' := by
  induction h with
  | refl => exact hstart
  | tail now _ hrunning ih => exact hint _ _ _ _ hrunning ih

/-- The store of a controller, or the one it left. -/
def Life.store : Life → RunStore
  | .up _ s => s.daemon.store
  | .down store => store

/-- Between lives the store changes by interrupts only. -/
theorem LifeStep.interrupts {life life' : Life} {event : LifeEvent} (hinv : life.Inv)
    (h : LifeStep life event life') (hsched : ∀ label, event ≠ .sched label) :
    Interrupts life.store life'.store := by
  cases h with
  | sched _ => exact absurd rfl (hsched _)
  | stop => exact .refl
  | start hlen htake => exact (Recoverable.takenBack hinv hlen htake).store
  | startStop hlen htake => exact Recoverable.takeBackUntil hinv hlen htake

theorem LifeStep.grows {life life' : Life} {event : LifeEvent} (hinv : life.Inv)
    (hok : life.StoreOk event) (h : LifeStep life event life') :
    life.store.Grows life'.store := by
  by_cases hsched : ∃ label, event = .sched label
  · obtain ⟨label, rfl⟩ := hsched
    cases h with
    | sched hperform =>
    exact (step_of_perform hperform).store hinv.1 hok (fun run => .upsertRun)
      (fun _ _ _ _ hgrows => hgrows.trans (.upsertJob _ _ _ _)) (.refl _)
  · exact (h.interrupts hinv fun label heq => hsched ⟨label, heq⟩).induction
      (fun _ _ _ _ _ hgrows => hgrows.trans (.interrupt _ _ _ _)) (.refl _)

theorem LifeStep.named {life life' : Life} {event : LifeEvent} (hinv : life.Inv)
    (hok : life.StoreOk event) (h : LifeStep life event life') (hnamed : life.store.Named) :
    life'.store.Named := by
  by_cases hsched : ∃ label, event = .sched label
  · obtain ⟨label, rfl⟩ := hsched
    cases h with
    | sched hperform =>
    exact (step_of_perform hperform).store hinv.1 hok (fun _ _ => hnamed)
      (fun _ _ _ _ hnamed => hnamed.upsertJob _ _ _) hnamed
  · exact (h.interrupts hinv fun label heq => hsched ⟨label, heq⟩).induction
      (fun _ _ _ _ _ hnamed => hnamed.interrupt _ _ _) hnamed

/-! ### Jobs that wait for a job -/

/-- Every chain of dependencies from the one job goes through the other. -/
inductive WaitsFor (spec : WorkflowSpec) (jobId : String) : String → Prop
  | intro {job : JobSpec} : job ∈ spec.jobs → job.dependsOn ≠ [] →
      (∀ dep ∈ job.dependsOn, dep ≠ jobId → WaitsFor spec jobId dep) →
      WaitsFor spec jobId job.id

/-- As long as a job has no row, a job that waits for it is Pending. -/
theorem WaitsFor.pending {store : RunStore} {runId : String} {spec : WorkflowSpec}
    (hrows : RowsOk store runId spec) {jobId waiting : String} (h : WaitsFor spec jobId waiting)
    (hnone : store.row? (runId, jobId) = none) : store.stateOf (runId, waiting) = .pending := by
  induction h with
  | @intro job hmem hne _ ih =>
    have hdep : ∀ dep ∈ job.dependsOn, store.stateOf (runId, dep) = .pending := by
      intro dep hdep
      by_cases heq : dep = jobId
      · rw [heq]; exact RunStore.stateOf_of_none hnone
      · exact ih dep hdep heq
    cases hstate : store.stateOf (runId, job.id) with
    | pending => rfl
    | skipped =>
      obtain ⟨dep, hmemDep, hbad⟩ := hrows.skipped job hmem hstate
      rw [hdep dep hmemDep] at hbad
      cases hbad
    | _ =>
      obtain ⟨dep, hmemDep⟩ := List.exists_mem_of_ne_nil _ hne
      have hsucc := hrows.started job hmem (by rw [hstate]; rfl) dep hmemDep
      rw [hdep dep hmemDep] at hsucc
      cases hsucc

/-! ### Jobs without dependencies -/

/-- The jobs without dependencies have rows. -/
def RootsWritten (store : RunStore) (runId : String) (spec : WorkflowSpec) : Prop :=
  ∀ job ∈ spec.jobs, job.dependsOn = [] → ∃ row, store.row? (runId, job.id) = some row

theorem RootsWritten.grows {store store' : RunStore} {runId : String} {spec : WorkflowSpec}
    (h : RootsWritten store runId spec) (hgrows : store.Grows store') :
    RootsWritten store' runId spec := fun job hjob hroot =>
  have ⟨row, hrow⟩ := h job hjob hroot
  hgrows.jobs _ row hrow

/-- The scheduler is about to queue jobs before it does anything else with them. -/
def Phase.BeforeTick : Phase → Prop
  | .idle | .finishing _ _ | .blocking | .qualifying _ => True
  | _ => False

/-- No job of the run was started, and none will be before the jobs without dependencies are
written. -/
structure RootsDue (s : SchedulerState) (runId : String) (spec : WorkflowSpec) : Prop where
  run : ∃ run, findRun s.daemon.runs runId = some run ∧ run.spec = spec
  early : ∀ id job, findJob s.daemon.runs (runId, id) = some job →
    job.state = .pending ∨ job.state = .queued
  due : (∀ id job, findJob s.daemon.runs (runId, id) = some job → job.state = .pending) ∨
    s.phase.BeforeTick ∨ ∃ toWrite, s.phase = .flushing toWrite .cascading ∧
      ∀ job ∈ spec.jobs, job.dependsOn = [] → s.daemon.store.row? (runId, job.id) = none →
        (runId, job.id) ∈ toWrite

/-- In a run where nothing started, a step queues or does nothing. -/
theorem RootsDue.job {s : SchedulerState} {runId : String} {spec : WorkflowSpec}
    (h : RootsDue s runId spec) {id : String} {job job' : JobInstance}
    {label : Label} (hjob : findJob s.daemon.runs (runId, id) = some job)
    (hstep : JobStep s (runId, id) job label job') :
    job'.state = job.state ∨ (label = .tick ∧ job'.state = .queued) := by
  have hearly := h.early id job hjob
  cases hstep with
  | same _ => exact .inl rfl
  | marked _ => exact .inl job.markCancelling_same.2.2.1
  | queued _ _ _ => exact .inr ⟨rfl, rfl⟩
  | skipped hrun _ hbad =>
    obtain ⟨dep, -, state, hstate, hbadState⟩ := WorkflowRun.depBad_iff.1 hbad
    obtain ⟨depJob, hdepJob, rfl⟩ := Option.map_eq_some_iff.1 hstate
    rcases h.early dep depJob (findJob_eq_some.2 ⟨_, hrun, hdepJob⟩) with hs | hs <;>
      rw [hs] at hbadState <;> cases hbadState
  | launched hphase _ _ hqueued _ =>
    rcases h.due with hpending | hbefore | ⟨toWrite, hflush, -⟩
    · have := hpending id job hjob
      rw [hqueued] at this
      cases this
    · rw [hphase] at hbefore; cases hbefore
    · rw [hphase] at hflush; cases hflush
  | polled _ _ _ hrunning _ =>
    rcases hearly with hs | hs <;> rw [hrunning] at hs <;> cases hs

/-- A tick leaves every job without dependencies that has no row to the flush. -/
theorem Stored.tick_roots {daemon : DaemonState} {checks : GpuChecks} {runId : String}
    {run : WorkflowRun} (hstored : Stored ⟨daemon, checks, .idle⟩)
    (hinv : JobsInv ⟨daemon, checks, .idle⟩) (hrun : findRun daemon.runs runId = some run)
    {job : JobSpec} (hmem : job ∈ run.spec.jobs) (hroot : job.dependsOn = [])
    (hnone : daemon.store.row? (runId, job.id) = none) :
    (runId, job.id) ∈ (advancePending daemon.runs).2 := by
  obtain ⟨hrunInv, haccepts⟩ := hinv.run runId run hrun
  obtain ⟨inst, hinst, rfl⟩ := hrunInv.job?_of_mem haccepts hmem
  have hid := findRun_runId hrun
  have hpending : inst.state = .pending := by
    have hwritten := (hstored.follows runId run hrun).written _ inst hinst List.not_mem_nil
    rw [hid] at hwritten
    rw [← hwritten]
    exact RunStore.stateOf_of_none hnone
  refine List.mem_flatMap.2 ⟨run, Keyed.mem_of_get? hrun,
    List.mem_map.2 ⟨inst.spec.id, ?_, Prod.ext hid rfl⟩⟩
  refine (WorkflowRun.mem_toQueue hrunInv.nodup hinst).2 ⟨hpending, ?_⟩
  rw [WorkflowRun.depsSucceeded, hroot]
  rfl

/-- Steps other than a tick leave the scheduler before it. -/
theorem Step.beforeTick {cfg : Config} {s s' : SchedulerState} {label : Label}
    (h : Step cfg s label s') (htick : label ≠ .tick) (hbefore : s.phase.BeforeTick) :
    s'.phase.BeforeTick := by
  cases h with
  | tick => exact absurd rfl htick
  | submit _ _ _ => exact hbefore
  | cancel _ => exact hbefore
  | reorderRuns _ => exact hbefore
  | reorderJobs _ _ => exact hbefore
  | checkGpus => trivial
  | qualificationOver _ => trivial
  | qualificationKept _ => trivial
  | qualificationsFinished _ => trivial
  | gpusBlocked _ _ => trivial
  | qualificationLaunched _ => trivial
  | gpusChecked => trivial
  | _ => cases hbefore

/-- The jobs without dependencies are written before any job of the run is started. -/
theorem RootsDue.step {cfg : Config} {s s' : SchedulerState} {label : Label} {runId : String}
    {spec : WorkflowSpec} (hinv : JobsInv s) (hstored : Stored s)
    (hok : label.StoreOk s.daemon.store) (hstep : Step cfg s label s')
    (h : RootsDue s runId spec) :
    RootsWritten s'.daemon.store runId spec ∨ RootsDue s' runId spec := by
  obtain ⟨run, hrun, rfl⟩ := h.run
  have hrun' := hstep.run_kept hinv.keysInv hrun
  have hgrows : s.daemon.store.Grows s'.daemon.store := hstep.store hinv hok (fun _ => .upsertRun)
    (fun _ _ _ _ hgrows => hgrows.trans (.upsertJob _ _ _ _)) (.refl _)
  have hjobs : ∀ id job', findJob s'.daemon.runs (runId, id) = some job' →
      ∃ job, findJob s.daemon.runs (runId, id) = some job ∧
        (job'.state = job.state ∨ (label = .tick ∧ job'.state = .queued)) := by
    intro id job' hjob'
    obtain ⟨job, hjob, hbecame⟩ := hstep.job_before hinv.keysInv hrun hjob'
    exact ⟨job, hjob, h.job hjob hbecame⟩
  have hearly : ∀ id job', findJob s'.daemon.runs (runId, id) = some job' →
      job'.state = .pending ∨ job'.state = .queued := by
    intro id job' hjob'
    obtain ⟨job, hjob, hsame | ⟨-, hqueued⟩⟩ := hjobs id job' hjob'
    · rw [hsame]; exact h.early id job hjob
    · exact .inr hqueued
  by_cases htick : label = .tick
  · subst htick
    refine .inr ⟨hrun', hearly, .inr (.inr ?_)⟩
    cases hstep with
    | tick => exact ⟨_, rfl, fun job hmem hroot => hstored.tick_roots hinv hrun hmem hroot⟩
  rcases h.due with hpending | hbefore | ⟨toWrite, hphase, hdue⟩
  · refine .inr ⟨hrun', hearly, .inl fun id job' hjob' => ?_⟩
    obtain ⟨job, hjob, hsame | ⟨heq, -⟩⟩ := hjobs id job' hjob'
    · rw [hsame]; exact hpending id job hjob
    · exact absurd heq htick
  · exact .inr ⟨hrun', hearly, .inr (.inl (hstep.beforeTick htick hbefore))⟩
  -- what had no row and has none now is still to be written
  have hkept : ∀ job ∈ run.spec.jobs, job.dependsOn = [] →
      s'.daemon.store.row? (runId, job.id) = none → (runId, job.id) ∈ toWrite := by
    intro job hmem hroot hnone
    refine hdue job hmem hroot ?_
    cases hrow : s.daemon.store.row? (runId, job.id) with
    | none => rfl
    | some row =>
      obtain ⟨row', hrow'⟩ := hgrows.jobs _ row hrow
      rw [hnone] at hrow'
      cases hrow'
  have hsame : s'.phase = s.phase →
      RootsWritten s'.daemon.store runId run.spec ∨ RootsDue s' runId run.spec := fun heq =>
    .inr ⟨hrun', hearly, .inr (.inr ⟨toWrite, heq.trans hphase, hkept⟩)⟩
  cases hstep with
  | submit _ _ _ => exact hsame rfl
  | cancel _ => exact hsame rfl
  | reorderRuns _ => exact hsame rfl
  | reorderJobs _ _ => exact hsame rfl
  | flushDone next =>
    obtain ⟨rfl, rfl⟩ := Phase.flushing.inj hphase
    refine .inl fun job hmem hroot => ?_
    cases hrow : RunStore.row? _ (runId, job.id) with
    | none => exact absurd (hkept job hmem hroot hrow) List.not_mem_nil
    | some row => exact ⟨row, rfl⟩
  | @flushed daemon checks key rest next written emittedAt daemon' hflushed =>
    obtain ⟨rfl, rfl⟩ := Phase.flushing.inj hphase
    obtain rfl : written = true := hok
    refine .inr ⟨hrun', hearly, .inr (.inr ⟨rest, rfl, fun job hmem hroot hnone => ?_⟩)⟩
    rcases List.mem_cons.1 (hkept job hmem hroot hnone) with rfl | hrest
    · -- it was just written
      obtain ⟨hrunInv, haccepts⟩ := hinv.run runId run hrun
      obtain ⟨inst, hinst, -⟩ := hrunInv.job?_of_mem haccepts hmem
      have hfound : findJob daemon.runs (runId, job.id) = some inst :=
        findJob_eq_some.2 ⟨run, hrun, hinst⟩
      rcases (flushTransition_written hflushed).2 with ⟨hmissing, -⟩ | ⟨job', node, hjob', hstore⟩
      · exact absurd (hfound.symm.trans hmissing) (Option.some_ne_none _)
      · dsimp only at hnone
        rw [hstore, RunStore.row?_upsertJob, if_pos] at hnone
        · cases hnone
        · exact Prod.ext rfl (findJob_jobId hjob').symm
    · exact hrest
  | _ => cases hphase

/-! ### A submitted run -/

/-- Which of the writes of a submit are enough: the run's row, and for every job without a row that
of a job that cannot end before it has one. -/
structure DurableWrites (spec : WorkflowSpec) (runWritten : Bool) (jobWritten : String → Bool) :
    Prop where
  run : spec.jobs ≠ [] → runWritten = true
  job : ∀ job ∈ spec.jobs, jobWritten job.id = false → ∃ waiting ∈ spec.ids,
    jobWritten waiting = true ∧ (job.dependsOn = [] ∨ WaitsFor spec job.id waiting)

/-- After a restart on this store every job of the run is stored as ended, or in a run that was
taken back. -/
def Survives (store : RunStore) (runId : String) (spec : WorkflowSpec) : Prop :=
  ∀ (cfg : Config) (pools : List ResourcePool) (found : JobKey → Option JobHandle) (now : DateTime),
    pools.length = cfg.nodes.length →
    ∃ daemon, takeBackRuns cfg found now (.new pools store) = .ok daemon ∧ ∀ jobId ∈ spec.ids,
      (∃ row state, store.row? (runId, jobId) = some row ∧
        JobState.fromStr row.state = some state ∧ state.isTerminal = true) ∨
      ∃ run job, findRun daemon.runs runId = some run ∧ run.job? jobId = some job

/-- No row says that a job of the run was started. -/
def Early (store : RunStore) (runId : String) : Prop :=
  ∀ jobId, store.stateOf (runId, jobId) = .pending ∨ store.stateOf (runId, jobId) = .queued

/-- Nothing of the run was started. -/
def Life.RootsDue (runId : String) (spec : WorkflowSpec) : Life → Prop
  | .up _ s => Roster.RootsDue s runId spec
  | .down store => Early store runId

/-- What stays true of a submitted run over all lives. -/
structure Kept (life : Life) (runId : String) (spec : WorkflowSpec) (jobWritten : String → Bool) :
    Prop where
  run : ∃ row ∈ life.store.runs, row.runId = runId ∧ row.spec = some spec
  jobs : ∀ jobId ∈ spec.ids, jobWritten jobId = true →
    ∃ row, life.store.row? (runId, jobId) = some row
  named : life.store.Named
  roots : RootsWritten life.store runId spec ∨ life.RootsDue runId spec

theorem Early.interrupts {store store' : RunStore} {runId : String} (h : Early store runId)
    (hint : Interrupts store store') : Early store' runId := by
  refine hint.induction (P := fun store => Early store runId)
    (fun store id jobId now hrunning hearly other => ?_) h
  rw [store.stateOf_interrupt id jobId now _ (by rw [hrunning]; decide), if_neg]
  · exact hearly other
  · intro heq
    rcases hearly other with hs | hs <;> rw [heq, hrunning] at hs <;> cases hs

theorem RootsDue.store {s : SchedulerState} {runId : String} {spec : WorkflowSpec}
    (h : RootsDue s runId spec) (hinv : JobsInv s) (hstored : Stored s) :
    Early s.daemon.store runId := by
  obtain ⟨run, hrun, rfl⟩ := h.run
  have hid := findRun_runId hrun
  have hfollows := hstored.follows runId run hrun
  rw [← hid]
  intro jobId
  cases hrow : s.daemon.store.row? (run.runId, jobId) with
  | none => exact .inl (RunStore.stateOf_of_none hrow)
  | some row =>
    obtain ⟨job, hjob⟩ := (hinv.run runId run hrun).1.total jobId (hfollows.known jobId row hrow)
    exact (hfollows.behind jobId job hjob).early
      (h.early jobId job (findJob_eq_some.2 ⟨run, hrun, hjob⟩))

/-- A run with a row and a job stored as not ended is found by the restart. -/
theorem RunStore.mem_unfinishedRuns_of_row {store : RunStore} {runRow : RunRow}
    (hrun : runRow ∈ store.runs) {jobId : String} {row : JobRow} {state : JobState}
    (hrow : store.row? (runRow.runId, jobId) = some row) (hnamed : row.state = state.asStr)
    (hstate : state.isTerminal = false) :
    ⟨runRow.runId, runRow.createdAt, runRow.spec, store.jobsOf runRow.runId⟩ ∈
      store.unfinishedRuns := by
  refine RunStore.mem_unfinishedRuns.2 ⟨runRow, hrun, List.any_eq_true.2 ⟨row, ?_, ?_⟩, rfl⟩
  · refine List.mem_filter.2 ⟨Keyed.mem_of_get? hrow, decide_eq_true ?_⟩
    exact congrArg Prod.fst (Keyed.key_of_get? hrow)
  · rw [hnamed]
    cases state <;> first | decide | cases hstate

/-- While a job of it is not stored as ended, a restart finds the run. -/
theorem Kept.unfinished {store : RunStore} {runId : String} {spec : WorkflowSpec}
    {runWritten : Bool} {jobWritten : String → Bool}
    (h : Kept (.down store) runId spec jobWritten) (hstore : Recoverable store)
    (hwrites : DurableWrites spec runWritten jobWritten) {jobId : String} (hid : jobId ∈ spec.ids)
    (hnot : ¬ ∃ row state, store.row? (runId, jobId) = some row ∧
      JobState.fromStr row.state = some state ∧ state.isTerminal = true) :
    ∃ saved ∈ store.unfinishedRuns, saved.runId = runId ∧ saved.spec = some spec := by
  obtain ⟨runRow, hrunRow, rfl, hspec⟩ := h.run
  have hfound : ∀ (other : String) (row : JobRow) (state : JobState),
      store.row? (runRow.runId, other) = some row → row.state = state.asStr →
      state.isTerminal = false →
      ∃ saved ∈ store.unfinishedRuns, saved.runId = runRow.runId ∧ saved.spec = some spec :=
    fun other row state hrow hnamed hstate =>
      ⟨_, RunStore.mem_unfinishedRuns_of_row hrunRow hrow hnamed hstate, rfl, hspec⟩
  cases hrow : store.row? (runRow.runId, jobId) with
  | some row =>
    obtain ⟨state, hnamed⟩ := h.named _ row hrow
    refine hfound jobId row state hrow hnamed ?_
    cases hterm : state.isTerminal with
    | false => rfl
    | true => exact absurd ⟨row, state, hrow, by rw [hnamed, JobState.fromStr_asStr], hterm⟩ hnot
  | none =>
    -- the job that was written and cannot end before this one has a row
    obtain ⟨job, hmem, rfl⟩ := List.mem_map.1 hid
    have hunwritten : jobWritten job.id = false := by
      cases hw : jobWritten job.id with
      | false => rfl
      | true =>
        obtain ⟨row, hrow'⟩ := h.jobs job.id hid hw
        exact absurd (hrow'.symm.trans hrow) (Option.some_ne_none _)
    obtain ⟨waiting, hwaiting, hwritten, hwhy⟩ := hwrites.job job hmem hunwritten
    obtain ⟨row, hrowWaiting⟩ : ∃ row, store.row? (runRow.runId, waiting) = some row :=
      h.jobs waiting hwaiting hwritten
    obtain ⟨state, hnamed⟩ := h.named _ row hrowWaiting
    have hstate : store.stateOf (runRow.runId, waiting) = state := by
      rw [RunStore.stateOf_of_row? hrowWaiting, hnamed, JobState.fromStr_asStr]; rfl
    refine hfound waiting row state hrowWaiting hnamed ?_
    rcases hwhy with hroot | hwaits
    · rcases h.roots with hroots | hearly
      · obtain ⟨row', hrow'⟩ := hroots job hmem hroot
        exact absurd (hrow'.symm.trans hrow) (Option.some_ne_none _)
      · rw [← hstate]
        rcases hearly waiting with hs | hs <;> rw [hs] <;> rfl
    · obtain ⟨spec', hspec', -, hrows⟩ := hstore.run runRow hrunRow
      obtain rfl := Option.some.inj (hspec.symm.trans hspec')
      rw [← hstate, hwaits.pending hrows hrow]
      rfl

/-- A submitted run is kept through every event. -/
theorem Kept.step {life life' : Life} {event : LifeEvent} {runId : String} {spec : WorkflowSpec}
    {runWritten : Bool} {jobWritten : String → Bool} (hinv : life.Inv)
    (hwrites : DurableWrites spec runWritten jobWritten) (hok : life.StoreOk event)
    (hstep : LifeStep life event life') (h : Kept life runId spec jobWritten) :
    Kept life' runId spec jobWritten := by
  have hgrows := hstep.grows hinv hok
  obtain ⟨⟨row, hrow, hrowId⟩, hjobs, hnamed, hroots⟩ := h
  refine ⟨⟨row, hgrows.runs row hrow, hrowId⟩, fun jobId hid hw =>
    have ⟨row, hrow⟩ := hjobs jobId hid hw
    hgrows.jobs _ row hrow, hstep.named hinv hok hnamed, ?_⟩
  rcases hroots with hwritten | hdue
  · exact .inl (hwritten.grows hgrows)
  cases hstep with
  | sched hperform =>
    exact RootsDue.step hinv.1 hinv.2 hok (step_of_perform hperform) hdue
  | stop => exact .inr (RootsDue.store hdue hinv.1 hinv.2)
  | startStop hlen htake =>
    exact .inr (Early.interrupts hdue (Recoverable.takeBackUntil hinv hlen htake))
  | @start cfg pools found now store daemon hlen htake =>
    by_cases hwritten : RootsWritten daemon.store runId spec
    · exact .inl hwritten
    -- a job is not stored as ended, so the run was taken back
    have htaken := Recoverable.takenBack hinv hlen htake
    obtain ⟨job, hmem, hnone⟩ : ∃ job ∈ spec.jobs, store.row? (runId, job.id) = none := by
      by_contra hall
      refine hwritten fun job hmem _ => ?_
      cases hrow : store.row? (runId, job.id) with
      | none => exact absurd ⟨job, hmem, hrow⟩ hall
      | some row => exact hgrows.jobs _ row hrow
    obtain ⟨saved, hsaved, rfl, hspec⟩ := Kept.unfinished
      ⟨⟨row, hrow, hrowId⟩, hjobs, hnamed, .inr hdue⟩ hinv hwrites (List.mem_map_of_mem hmem)
      (by rintro ⟨row', -, hrow', -⟩; exact Option.some_ne_none _ (hrow'.symm.trans hnone))
    obtain ⟨run, hrun, hrebuilt⟩ := htaken.run saved hsaved
    have hearly := Early.interrupts hdue htaken.store
    refine .inr ⟨⟨run, hrun, Option.some.inj (hrebuilt.spec.symm.trans hspec)⟩,
      fun id job hjob => ?_, .inr (.inl trivial)⟩
    obtain ⟨run', hrun', hj⟩ := findJob_eq_some.1 hjob
    obtain rfl := Option.some.inj (hrun'.symm.trans hrun)
    rw [← hrebuilt.follows.written id job hj List.not_mem_nil, hrebuilt.runId]
    exact hearly id

/-- The row of every job whose write succeeded is there after a submit. -/
theorem foldl_upsertJob_row? {runId : String} {jobWritten : String → Bool}
    {jobs : List JobInstance} {store : RunStore} {job : JobInstance} (hmem : job ∈ jobs)
    (hw : jobWritten job.jobId = true) :
    ∃ row, (jobs.foldl (fun store job =>
      if jobWritten job.jobId then store.upsertJob runId job none else store) store).row?
        (runId, job.jobId) = some row := by
  induction jobs generalizing store with
  | nil => cases hmem
  | cons first jobs ih =>
    rw [List.foldl_cons]
    rcases List.mem_cons.1 hmem with rfl | hmem
    · rw [if_pos hw]
      have hgrows : (store.upsertJob runId job none).Grows (jobs.foldl (fun store job =>
          if jobWritten job.jobId then store.upsertJob runId job none else store)
          (store.upsertJob runId job none)) := by
        refine List.foldlRecOn _ _ (.refl _) fun mid hmid other _ => ?_
        split
        · exact hmid.trans (.upsertJob _ _ _ _)
        · exact hmid
      have hrow : (store.upsertJob runId job none).row? (runId, job.jobId) =
          some (RunStore.rowOf runId job none) := by
        rw [RunStore.row?_upsertJob, if_pos rfl]
      exact hgrows.jobs _ _ hrow
    · exact ih hmem

/-- What a submit wrote is kept from then on. -/
theorem Kept.submit {cfg : Config} {s s' : SchedulerState} {runId : String} {spec : WorkflowSpec}
    {iter : List JobSpec} {now : DateTime} {runWritten : Bool} {jobWritten : String → Bool}
    (hinv : JobsInv s) (hnamed : s.daemon.store.Named) (hfresh : s.daemon.store.Fresh runId)
    (hstep : Step cfg s (.submit runId spec iter now runWritten jobWritten) s')
    (hwritten : runWritten = true) : Kept (.up cfg s') runId spec jobWritten := by
  cases hstep with
  | submit hnew haccepts _ =>
  have hfind : findRun (Roster.submit s.daemon runId spec now runWritten jobWritten).runs runId =
      some (.new runId s.daemon.runCounter spec s.daemon.jobCounter now) := by
    rw [submit_runs hnew]
    exact (findRun_append runId hnew).trans (if_pos rfl)
  refine ⟨?_, fun jobId hid hw => ?_, ?_, .inr ⟨⟨_, hfind, rfl⟩, fun id job hjob => .inl ?_,
    .inl fun id job hjob => ?_⟩⟩
  · subst hwritten
    refine List.foldlRecOn (motive := fun store : RunStore => ∃ row ∈ store.runs,
      row.runId = runId ∧ row.spec = some spec) _ _ ?_ fun store hstore job _ => ?_
    · refine ⟨⟨runId, spec.name, now, some spec⟩, ?_, rfl, rfl⟩
      rw [if_pos rfl, RunStore.upsertRun, Keyed.insert_of_fresh (Keyed.get?_eq_none.2 hfresh.1)]
      exact List.mem_append_right _ (List.mem_singleton_self _)
    · split <;> exact hstore
  · obtain ⟨job, hjob⟩ :=
      (RunInv.new haccepts runId s.daemon.runCounter s.daemon.jobCounter now).total jobId hid
    have hjobId : job.jobId = jobId := Keyed.key_of_get? hjob
    subst hjobId
    exact foldl_upsertJob_row? (Keyed.mem_of_get? hjob) hw
  · exact submit_store hnamed (fun _ _ _ _ h => h.upsertJob _ _ _) hnamed
  all_goals
    obtain ⟨run, hrun, hj⟩ := findJob_eq_some.1 hjob
    obtain rfl := Option.some.inj (hrun.symm.trans hfind)
    exact (WorkflowRun.job?_new haccepts hj).1

/-- **A submit whose writes were enough is durable**: at every moment the controller may stop at
from then on, in this life or a later one, every job of the run is stored as ended or comes back
with its run. -/
theorem submit_durable {cfg : Config} {s s' : SchedulerState} {runId : String}
    {spec : WorkflowSpec} {iter : List JobSpec} {now : DateTime} {runWritten : Bool}
    {jobWritten : String → Bool}
    (hreach : (lives.guard Life.StoreOk).Reach (.down ⟨[], []⟩) (.up cfg s))
    (hfresh : s.daemon.store.Fresh runId)
    (hsubmit : s.perform cfg (.submit runId spec iter now runWritten jobWritten) = some (.ok s'))
    (hwrites : DurableWrites spec runWritten jobWritten) {store : RunStore}
    (hlater : (lives.guard Life.StoreOk).Reach (.up cfg s') (.down store)) :
    Survives store runId spec := by
  have hstart : Life.Inv (.up cfg s) ∧ s.daemon.store.Named :=
    hreach.invariant (I := fun life => life.Inv ∧ life.store.Named)
      ⟨Recoverable.empty, fun _ _ hrow => by cases hrow⟩ fun _ _ _ _ hinv hstep =>
        ⟨hinv.1.step hstep.1 hstep.2, LifeStep.named hinv.1 hstep.1 hstep.2 hinv.2⟩
  have hstep := step_of_perform hsubmit
  have hsched : LifeStep (.up cfg s)
      (.sched (.submit runId spec iter now runWritten jobWritten)) (.up cfg s') := .sched hsubmit
  have hok : (Life.up cfg s).StoreOk
      (.sched (.submit runId spec iter now runWritten jobWritten)) := hfresh
  have hinv' : Life.Inv (.up cfg s') := hstart.1.step hok hsched
  have hstore : Recoverable store :=
    hlater.invariant (I := Life.Inv) hinv' fun _ _ _ _ hinv hstep => hinv.step hstep.1 hstep.2
  intro cfg' pools found now' hlen
  obtain ⟨daemon, hdaemon, htaken⟩ := hstore.takeBackRuns_ok found now' hlen
  refine ⟨daemon, hdaemon, fun jobId hid => ?_⟩
  -- a run that is not done is taken back, with all its jobs
  rw [or_iff_not_imp_left]
  intro hnot
  have hjobs : spec.jobs ≠ [] := by
    rintro hnil
    rw [WorkflowSpec.ids, hnil] at hid
    cases hid
  -- what was written at the submission is kept through every later life
  have hkept : Kept (.down store) runId spec jobWritten :=
    (hlater.invariant (I := fun life => life.Inv ∧ Kept life runId spec jobWritten)
      ⟨hinv', .submit hstart.1.1 hstart.2 hfresh hstep (hwrites.run hjobs)⟩
      fun _ _ _ _ hinv hstep => ⟨hinv.1.step hstep.1 hstep.2,
        hinv.2.step hinv.1 hwrites hstep.1 hstep.2⟩).2
  obtain ⟨saved, hsaved, rfl, hspec⟩ := hkept.unfinished hstore hwrites hid hnot
  obtain ⟨run, hrun, hrebuilt⟩ := htaken.run saved hsaved
  obtain ⟨job, hjob⟩ := hrebuilt.inv.total jobId
    (Option.some.inj (hrebuilt.spec.symm.trans hspec) ▸ hid)
  exact ⟨run, job, hrun, hjob⟩

/-- Submit the two jobs; of their rows, the first is not written. -/
def submitsSecond : Label := .submit "r" twoJobs twoJobs.jobs 0 true fun jobId => jobId == "b"

/-- The first job waits for nothing, so the row of the second is enough. -/
theorem submitsSecond_survives : ∃ s store, firstStart.perform oneMachine submitsSecond =
      some (.ok s) ∧ (lives.guard Life.StoreOk).Reach (.up oneMachine s) (.down store) ∧
    Survives store "r" twoJobs := by
  have hrun : (firstStart.run oneMachine [submitsSecond]).isSome = true := by decide
  obtain ⟨s, hs⟩ := Option.isSome_iff_exists.1 hrun
  obtain ⟨mid, hmid, -⟩ := SchedulerState.run_cons.1 hs
  have hlater : (lives.guard Life.StoreOk).Reach (.up oneMachine mid) (.down mid.daemon.store) :=
    LTS.Reach.refl.tail (l := .stop) ⟨trivial, .stop⟩
  refine ⟨mid, _, hmid, hlater, submit_durable firstStart_reach (RunStore.fresh_nil "r") hmid
    ⟨fun _ => rfl, fun job hjob hw => ?_⟩ hlater⟩
  refine ⟨"b", by decide, rfl, .inl ?_⟩
  rcases List.mem_cons.1 hjob with rfl | hjob
  · rfl
  · obtain rfl := List.mem_singleton.1 hjob
    cases hw

/-- Submit the two jobs; the row of the run is not written. -/
def submitsUnrecorded : Label := .submit "r" twoJobs twoJobs.jobs 0 false fun _ => true

/-- The controller stops after it answered, and the run is lost: its jobs are stored as Pending, and
no run is taken back. -/
theorem submitsUnrecorded_lost : ∃ s store, firstStart.perform oneMachine submitsUnrecorded =
      some (.ok s) ∧ (lives.guard Life.StoreOk).Reach (.up oneMachine s) (.down store) ∧
    ¬ Survives store "r" twoJobs := by
  have hrun : (firstStart.run oneMachine [submitsUnrecorded]).map (fun s =>
      (s.daemon.store.runs, (s.daemon.store.row? ("r", "a")).map JobRow.state)) =
      some ([], some "Pending") := by decide
  obtain ⟨s, hs, hstore⟩ := Option.map_eq_some_iff.1 hrun
  obtain ⟨mid, hmid, hnil⟩ := SchedulerState.run_cons.1 hs
  obtain rfl := Option.some.inj hnil
  obtain ⟨hruns, hrow⟩ := Prod.mk.inj hstore
  refine ⟨mid, mid.daemon.store, hmid, LTS.Reach.refl.tail (l := .stop) ⟨trivial, .stop⟩,
    fun hclaim => ?_⟩
  obtain ⟨daemon, hdaemon, hjobs⟩ := hclaim oneMachine [.new ⟨4, 8192, []⟩] (fun _ => none) 1 rfl
  have hstoreEq : mid.daemon.store = ⟨[], mid.daemon.store.jobs⟩ := by
    rw [← hruns]
  rw [hstoreEq, takeBackRuns_nil] at hdaemon
  obtain rfl := Except.ok.inj hdaemon
  rcases hjobs "a" (by decide) with ⟨row, state, hfound, hstate, hterm⟩ | ⟨run, job, hfound, -⟩
  · rw [hfound, Option.map_some, Option.some.injEq] at hrow
    rw [hrow] at hstate
    obtain rfl := Option.some.inj hstate
    cases hterm
  · cases hfound

end Roster
