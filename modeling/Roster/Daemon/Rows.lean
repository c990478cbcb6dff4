import Roster.Daemon.Recover
import Roster.Scheduler.RunMachine

/-!
# What the rows of a run say

A restarted controller knows a run from its row and the rows of its jobs.  `RowsOk` is what these
have to say for the run to be rebuilt in order: a job whose row says it started has only rows of
succeeded jobs before it, and one whose row says Skipped has a row that ended badly.  `Recoverable`
asks it of every run in the store, and interrupting a job that is stored as Running keeps it
(`Recoverable.interrupts`).
-/

namespace Roster

namespace RunStore

/-- The stored row of a job. -/
def row? (store : RunStore) (key : JobKey) : Option JobRow := Keyed.get? JobRow.key store.jobs key

/-- The state a job is restored in: what its row says, or Pending. -/
def stateOf (store : RunStore) (key : JobKey) : JobState :=
  ((store.row? key).bind fun row => JobState.fromStr row.state).getD .pending

theorem stateOf_of_row? {store : RunStore} {key : JobKey} {row : JobRow}
    (h : store.row? key = some row) :
    store.stateOf key = (JobState.fromStr row.state).getD .pending := by
  rw [stateOf, h, Option.bind_some]

theorem stateOf_of_none {store : RunStore} {key : JobKey} (h : store.row? key = none) :
    store.stateOf key = .pending := by
  rw [stateOf, h]; rfl

theorem row?_upsertJob (store : RunStore) (runId : String) (job : JobInstance)
    (node : Option String) (key : JobKey) : (store.upsertJob runId job node).row? key =
      if key = (runId, job.jobId) then some (rowOf runId job node) else store.row? key := by
  have hkey : (rowOf runId job node).key = (runId, job.jobId) := rfl
  refine Keyed.get?_insert.trans ?_
  rw [hkey]
  simp only [eq_comm (a := key), row?]

theorem stateOf_upsertJob (store : RunStore) (runId : String) (job : JobInstance)
    (node : Option String) (key : JobKey) : (store.upsertJob runId job node).stateOf key =
      if key = (runId, job.jobId) then job.state else store.stateOf key := by
  rw [stateOf, row?_upsertJob]
  split
  · simp [rowOf]
  · rfl

/-- What `interrupt` writes. -/
def interruptedRow (now : DateTime) (row : JobRow) : JobRow :=
  { row with state := "Interrupted", endedAt := some now, node := none, allocation := none }

theorem row?_interrupt (store : RunStore) (runId jobId : String) (now : DateTime) (key : JobKey) :
    (store.interrupt runId jobId now).row? key =
      if key = (runId, jobId) then (store.row? key).map (interruptedRow now)
      else store.row? key := by
  unfold row? interrupt
  by_cases h : key = (runId, jobId)
  · subst h
    rw [if_pos rfl]
    exact Keyed.get?_modify_self fun _ h => h
  · rw [if_neg h]
    exact Keyed.get?_modify_ne (fun _ h => h) h

theorem stateOf_interrupt (store : RunStore) (runId jobId : String) (now : DateTime)
    (key : JobKey) (hne : store.stateOf (runId, jobId) ≠ .pending) :
    (store.interrupt runId jobId now).stateOf key =
      if key = (runId, jobId) then .interrupted else store.stateOf key := by
  rw [stateOf, row?_interrupt]
  by_cases h : key = (runId, jobId)
  · subst h
    cases hrow : store.row? (runId, jobId) with
    | none => exact absurd (stateOf_of_none hrow) hne
    | some row => simp [interruptedRow, JobState.fromStr]
  · rw [if_neg h, if_neg h]
    rfl

end RunStore

/-! ### Rows in order -/

/-- The rows of a run are in order: they are of its jobs, a started job has only succeeded ones
before it, and a skipped one has a job before it that ended badly. -/
structure RowsOk (store : RunStore) (runId : String) (spec : WorkflowSpec) : Prop where
  known : ∀ jobId row, store.row? (runId, jobId) = some row → jobId ∈ spec.ids
  started : ∀ job ∈ spec.jobs, (store.stateOf (runId, job.id)).hasStarted = true →
    ∀ dep ∈ job.dependsOn, store.stateOf (runId, dep) = .succeeded
  skipped : ∀ job ∈ spec.jobs, store.stateOf (runId, job.id) = .skipped →
    ∃ dep ∈ job.dependsOn, (store.stateOf (runId, dep)).isBad = true

theorem RowsOk.of_row? {store store' : RunStore} {runId : String} {spec : WorkflowSpec}
    (h : RowsOk store runId spec)
    (hsame : ∀ jobId, store'.row? (runId, jobId) = store.row? (runId, jobId)) :
    RowsOk store' runId spec := by
  have hstate : ∀ jobId, store'.stateOf (runId, jobId) = store.stateOf (runId, jobId) :=
    fun jobId => by rw [RunStore.stateOf, hsame, RunStore.stateOf]
  refine ⟨fun jobId row hrow => h.known jobId row (hsame jobId ▸ hrow),
    fun job hjob hstarted dep hdep => ?_, fun job hjob hskipped => ?_⟩
  · rw [hstate] at hstarted ⊢
    exact h.started job hjob hstarted dep hdep
  · rw [hstate] at hskipped
    obtain ⟨dep, hdep, hbad⟩ := h.skipped job hjob hskipped
    exact ⟨dep, hdep, by rwa [hstate]⟩

/-- A job that is stored as Running may be interrupted. -/
theorem RowsOk.interrupt {store : RunStore} {runId jobId runId' : String} {spec : WorkflowSpec}
    (h : RowsOk store runId spec) (hrunning : store.stateOf (runId', jobId) = .running)
    (now : DateTime) : RowsOk (store.interrupt runId' jobId now) runId spec := by
  have hstate := fun key => store.stateOf_interrupt runId' jobId now key (by rw [hrunning]; decide)
  refine ⟨fun id row hrow => ?_, fun job hjob hstarted dep hdep => ?_, fun job hjob hskipped => ?_⟩
  · rw [RunStore.row?_interrupt] at hrow
    split at hrow
    · obtain ⟨before, hbefore, -⟩ := Option.map_eq_some_iff.1 hrow
      exact h.known id before hbefore
    · exact h.known id row hrow
  · have hbefore : (store.stateOf (runId, job.id)).hasStarted = true := by
      rw [hstate] at hstarted
      split at hstarted
      · next hkey => rw [hkey, hrunning]; rfl
      · exact hstarted
    have hdepOk := h.started job hjob hbefore dep hdep
    rw [hstate, if_neg, hdepOk]
    intro hkey
    rw [hkey, hrunning] at hdepOk
    cases hdepOk
  · rw [hstate] at hskipped
    split at hskipped
    · cases hskipped
    · obtain ⟨dep, hdep, hbad⟩ := h.skipped job hjob hskipped
      refine ⟨dep, hdep, ?_⟩
      rw [hstate]
      split
      · rfl
      · exact hbad

/-- Every run of the store can be rebuilt. -/
structure Recoverable (store : RunStore) : Prop where
  runs : (store.runs.map RunRow.runId).Nodup
  jobs : (store.jobs.map JobRow.key).Nodup
  run : ∀ row ∈ store.runs, ∃ spec, row.spec = some spec ∧ Dag.Accepts spec ∧
    RowsOk store row.runId spec

theorem Recoverable.empty : Recoverable ⟨[], []⟩ where
  runs := List.nodup_nil
  jobs := List.nodup_nil
  run _ hrow := by cases hrow

/-- A store and what interrupting some jobs that are stored as Running made of it. -/
inductive Interrupts (store : RunStore) : RunStore → Prop
  | refl : Interrupts store store
  | tail {mid : RunStore} {runId jobId : String} (now : DateTime) : Interrupts store mid →
      mid.stateOf (runId, jobId) = .running → Interrupts store (mid.interrupt runId jobId now)

namespace Interrupts

variable {store store' store'' : RunStore}

theorem trans (h : Interrupts store store') (h' : Interrupts store' store'') :
    Interrupts store store'' := by
  induction h' with
  | refl => exact h
  | tail now _ hrunning ih => exact ih.tail now hrunning

theorem runs (h : Interrupts store store') : store'.runs = store.runs := by
  induction h with
  | refl => rfl
  | tail _ _ _ ih => exact ih

end Interrupts

theorem Recoverable.interrupts {store store' : RunStore} (h : Recoverable store)
    (hint : Interrupts store store') : Recoverable store' := by
  induction hint with
  | refl => exact h
  | @tail mid runId jobId now _ hrunning ih =>
    have hkeys : (mid.interrupt runId jobId now).jobs.map JobRow.key = mid.jobs.map JobRow.key :=
      Keyed.map_key_modify fun _ h => h
    refine ⟨ih.runs, hkeys ▸ ih.jobs, fun row hrow => ?_⟩
    obtain ⟨spec, hspec, haccepts, hrows⟩ := ih.run row hrow
    exact ⟨spec, hspec, haccepts, hrows.interrupt hrunning now⟩

/-! ### What is read at the start -/

/-- The rows of the run, as they stand in the store. -/
structure SavedRun.Current (saved : SavedRun) (store : RunStore) : Prop where
  nodup : (saved.jobs.map JobRow.jobId).Nodup
  row : ∀ jobId, store.row? (saved.runId, jobId) = Keyed.get? JobRow.jobId saved.jobs jobId

theorem RunStore.jobsOf_current {store : RunStore} (hjobs : (store.jobs.map JobRow.key).Nodup)
    (run : RunRow) : SavedRun.Current
      ⟨run.runId, run.createdAt, run.spec, store.jobsOf run.runId⟩ store := by
  have hkey : ∀ row ∈ store.jobsOf run.runId, row.runId = run.runId := fun row hrow =>
    of_decide_eq_true (List.mem_filter.1 hrow).2
  have hnodup : ((store.jobsOf run.runId).map JobRow.jobId).Nodup := by
    have hkeys := hjobs.sublist (List.filter_sublist.map JobRow.key :
      ((store.jobsOf run.runId).map JobRow.key).Sublist _)
    have hpair : (store.jobsOf run.runId).map JobRow.key =
        ((store.jobsOf run.runId).map JobRow.jobId).map fun jobId => (run.runId, jobId) := by
      rw [List.map_map]
      exact List.map_congr_left fun row hrow => Prod.ext (hkey row hrow) rfl
    exact List.Nodup.of_map _ (hpair ▸ hkeys)
  refine ⟨hnodup, fun jobId => ?_⟩
  ext row
  rw [RunStore.row?, Keyed.get?_eq_some hjobs, Keyed.get?_eq_some hnodup]
  simp only [RunStore.jobsOf, List.mem_filter, decide_eq_true_eq, JobRow.key, Prod.mk.injEq,
    and_assoc]

theorem RunStore.mem_unfinishedRuns {store : RunStore} {saved : SavedRun} :
    saved ∈ store.unfinishedRuns ↔ ∃ run ∈ store.runs, store.unfinished run = true ∧
      saved = ⟨run.runId, run.createdAt, run.spec, store.jobsOf run.runId⟩ := by
  simp only [RunStore.unfinishedRuns, List.mem_map, List.mem_mergeSort, List.mem_filter, and_assoc,
    eq_comm (a := saved)]

theorem RunStore.unfinishedRuns_nodup {store : RunStore}
    (h : (store.runs.map RunRow.runId).Nodup) :
    (store.unfinishedRuns.map SavedRun.runId).Nodup := by
  rw [RunStore.unfinishedRuns, List.map_map]
  have hperm := (List.mergeSort_perm (store.runs.filter store.unfinished) fun a b =>
    decide (a.createdAt ≤ b.createdAt)).map RunRow.runId
  exact hperm.nodup_iff.2 (h.sublist (List.filter_sublist.map _))

end Roster
