import Roster.Workflow.Model

/-!
# The status of a run

The status of a run is never stored: `deriveRunState` reads it off the states of the run's jobs, by
precedence.  It does not depend on the order in which the jobs come (`deriveRunState_perm`).
-/

namespace Roster

/-- State of a run. -/
inductive RunState
  /-- No jobs started. -/
  | pending
  | running
  /-- All jobs complete, no failure. -/
  | succeeded
  | failed
  | cancelled
  deriving DecidableEq, Repr

/-- The name a run's state is stored under. -/
def RunState.asStr : RunState → String
  | .pending => "Pending"
  | .running => "Running"
  | .succeeded => "Succeeded"
  | .failed => "Failed"
  | .cancelled => "Cancelled"

namespace JobState

/-- The job ended badly by itself. -/
def countsFailed : JobState → Bool
  | .failed | .timedOut | .interrupted => true
  | .pending | .queued | .running | .succeeded | .skipped | .cancelled => false

/-- The job is queued or runs. -/
def isActive : JobState → Bool
  | .running | .queued => true
  | .pending | .succeeded | .failed | .skipped | .cancelled | .timedOut | .interrupted => false

/-- The job is over, and nothing went wrong with it. -/
def isDone : JobState → Bool
  | .succeeded | .skipped => true
  | .pending | .queued | .running | .failed | .cancelled | .timedOut | .interrupted => false

/-- A job ended badly, was cancelled, is active, is done, or waits. -/
theorem kinds (state : JobState) : state.countsFailed = true ∨ state = .cancelled ∨
    state.isActive = true ∨ state.isDone = true ∨ state = .pending := by
  cases state <;> decide

theorem isTerminal_of_countsFailed {state : JobState} (h : state.countsFailed = true) :
    state.isTerminal = true := by
  cases state <;> first | rfl | cases h

theorem isTerminal_of_isDone {state : JobState} (h : state.isDone = true) :
    state.isTerminal = true := by
  cases state <;> first | rfl | cases h

/-- An active job is neither done nor waiting. -/
theorem not_idle_of_isActive {state : JobState} (h : state.isActive = true) :
    ¬ (state.isDone = true ∨ state = .pending) := by
  cases state <;> first | decide | cases h

end JobState

/-- `derive_run_state`. -/
def deriveRunState (states : List JobState) : RunState :=
  if states.any JobState.countsFailed then .failed
  else if states.any fun state => decide (state = .cancelled) then .cancelled
  else if states.any JobState.isActive then .running
  else if !states.isEmpty && states.all JobState.isDone then .succeeded
  -- also what a run is whose jobs all ended or wait
  else .pending

/-- `WorkflowRun::status`. -/
def WorkflowRun.status (run : WorkflowRun) : RunState :=
  deriveRunState (run.jobs.map JobInstance.state)

section Derive

variable {states states' : List JobState}

theorem deriveRunState_eq_failed :
    deriveRunState states = .failed ↔ ∃ state ∈ states, state.countsFailed = true := by
  rw [← List.any_eq_true]
  unfold deriveRunState
  split_ifs <;> simp_all

theorem exists_cancelled_of_deriveRunState (h : deriveRunState states = .cancelled) :
    .cancelled ∈ states := by
  unfold deriveRunState at h
  split_ifs at h
  simp_all

theorem deriveRunState_eq_running : deriveRunState states = .running ↔
    (∀ state ∈ states, state.countsFailed = false ∧ state ≠ .cancelled) ∧
      ∃ state ∈ states, state.isActive = true := by
  have hnone : (∀ state ∈ states, state.countsFailed = false ∧ state ≠ .cancelled) ↔
      states.any JobState.countsFailed = false ∧
        states.any (fun state => decide (state = .cancelled)) = false := by
    simp [List.any_eq_false, forall_and]
  rw [hnone, ← List.any_eq_true]
  unfold deriveRunState
  split_ifs <;> simp_all

/-- Where nothing went wrong and nothing is active, what matters is whether all jobs are done. -/
theorem deriveRunState_of_idle
    (h : ∀ state ∈ states, state.isDone = true ∨ state = .pending) : deriveRunState states =
      if !states.isEmpty && states.all JobState.isDone then .succeeded else .pending := by
  have hnone : ∀ p : JobState → Bool,
      (∀ state : JobState, state.isDone = true ∨ state = .pending → p state = false) →
      states.any p = false := by
    intro p hp
    rw [List.any_eq_false]
    intro state hmem
    simp [hp state (h state hmem)]
  unfold deriveRunState
  rw [hnone _ (by rintro ⟨⟩ <;> decide), hnone _ (by rintro ⟨⟩ <;> decide),
    hnone _ (by rintro ⟨⟩ <;> decide)]
  rfl

/-- Where neither is the case, the status shows it. -/
theorem idle_of_deriveRunState
    (h : deriveRunState states = .succeeded ∨ deriveRunState states = .pending) :
    ∀ state ∈ states, state.isDone = true ∨ state = .pending := by
  intro state hmem
  have hnone : (∀ state ∈ states, state.countsFailed = false) ∧ .cancelled ∉ states ∧
      ∀ state ∈ states, state.isActive = false := by
    unfold deriveRunState at h
    split_ifs at h <;> simp_all
  rcases state.kinds with hs | rfl | hs | hs | hs
  · rw [hnone.1 state hmem] at hs; cases hs
  · exact absurd hmem hnone.2.1
  · rw [hnone.2.2 state hmem] at hs; cases hs
  · exact .inl hs
  · exact .inr hs

theorem deriveRunState_eq_succeeded : deriveRunState states = .succeeded ↔
    states ≠ [] ∧ ∀ state ∈ states, state.isDone = true := by
  constructor
  · intro h
    rw [deriveRunState_of_idle (idle_of_deriveRunState (.inl h))] at h
    split at h
    · next hdone => simpa using hdone
    · cases h
  · rintro ⟨hne, hdone⟩
    rw [deriveRunState_of_idle fun state hmem => .inl (hdone state hmem), if_pos]
    simpa [hne] using hdone

/-- A run is Pending while none of its jobs is active or went wrong, but not all are done: whether
one of them started is not asked. -/
theorem deriveRunState_eq_pending : deriveRunState states = .pending ↔
    (∀ state ∈ states, state.isDone = true ∨ state = .pending) ∧
      (states = [] ∨ .pending ∈ states) := by
  constructor
  · intro h
    have hidle := idle_of_deriveRunState (.inr h)
    refine ⟨hidle, ?_⟩
    rw [deriveRunState_of_idle hidle] at h
    by_contra hnone
    push Not at hnone
    rw [if_pos] at h
    · cases h
    · have hdone : ∀ state ∈ states, state.isDone = true := fun state hmem =>
        (hidle state hmem).resolve_right fun heq => hnone.2 (heq ▸ hmem)
      simpa [hnone.1] using hdone
  · rintro ⟨hidle, hwaits⟩
    rw [deriveRunState_of_idle hidle, if_neg]
    rcases hwaits with rfl | hmem
    · decide
    · have hnot : states.all JobState.isDone = false := List.all_eq_false.2 ⟨_, hmem, by decide⟩
      simp [hnot]

/-- The status does not depend on the order of the jobs. -/
theorem deriveRunState_perm (h : states.Perm states') :
    deriveRunState states = deriveRunState states' := by
  unfold deriveRunState
  have hany : ∀ p : JobState → Bool, states.any p = states'.any p := fun p => h.any_eq
  have hall : states.all JobState.isDone = states'.all JobState.isDone := h.all_eq
  have hempty : states.isEmpty = states'.isEmpty := h.isEmpty_eq
  rw [hany, hany, hany, hall, hempty]

end Derive

end Roster
