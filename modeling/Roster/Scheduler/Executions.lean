import Roster.Scheduler.JobStep

/-!
# Where executions come from

An execution is made by a launch, waits with its outcome until that is applied, belongs to its job
from then on, and is polled from there.  So what holds of every execution at the start and of those
that launches return holds of every execution (`ExecutionsHold.step`).  Likewise what holds of every
answer of a poll as it returns holds of those that are applied (`Phase.AnswersHold.step`), and a job
succeeds on one of them (`JobStep.succeeded`).
-/

namespace Roster

/-- What holds of the executions that outcomes and polls carry. -/
def Phase.ExecutionsHold (E : JobKey → Execution → Prop) : Phase → Prop
  | .launching _ outcomes => ∀ outcome ∈ outcomes, ∀ execution ∈ outcome.executions,
      E outcome.key execution
  | .polling todo _ => ∀ job ∈ todo, ∃ execution, E job.key execution ∧
      execution.node = job.node ∧ execution.handle = some job.handle
  | _ => True

/-- `E` holds of every execution of a job, and of those on their way to one. -/
structure ExecutionsHold (E : JobKey → Execution → Prop) (s : SchedulerState) : Prop where
  jobs : ∀ key job, findJob s.daemon.runs key = some job → ∀ execution ∈ job.executions,
    E key execution
  phase : s.phase.ExecutionsHold E

/-- What a launch that returns now has to make sure. -/
def LaunchesHold (E : JobKey → Execution → Prop) (s : SchedulerState) : Label → Prop
  | .launched results => ∀ task tasks outcomes, s.phase = .launching (task :: tasks) outcomes →
      ∀ execution ∈ (task.outcome results).executions, E task.key execution
  | _ => True

variable {E : JobKey → Execution → Prop} {cfg : Config} {s s' : SchedulerState} {label : Label}

/-- A job gets its executions from the outcome of its launch. -/
theorem JobStep.executions {key : JobKey} {job job' : JobInstance}
    (h : JobStep s key job label job') {execution : Execution}
    (hmem : execution ∈ job'.executions) : execution ∈ job.executions ∨
      ∃ outcomes outcome, s.phase = .launching [] outcomes ∧ outcome ∈ outcomes ∧
        outcome.key = key ∧ execution ∈ outcome.executions := by
  cases h with
  | same _ => exact .inl hmem
  | marked hrunning => rw [JobInstance.markCancelling, if_pos hrunning] at hmem; exact .inl hmem
  | queued _ _ _ => exact .inl hmem
  | skipped _ _ _ => exact .inl hmem
  | launched hphase hout hkey _ hlaunched =>
    cases hlaunched with
    | started _ _ => exact .inr ⟨_, _, hphase, hout, hkey, hmem⟩
    | _ => exact .inl hmem
  | polled _ _ _ _ hpolled =>
    cases hpolled with
    | running _ => exact .inl hmem
    | unreachable _ _ => exact .inl hmem
    | failed _ _ => cases hmem
    | exited exitCode _ =>
      rw [JobInstance.exited_executions] at hmem
      cases hmem

theorem ExecutionsHold.phase_step (hinv : JobsInv s) (h : ExecutionsHold E s)
    (hlaunch : LaunchesHold E s label) (hst : Step cfg s label s') : s'.phase.ExecutionsHold E := by
  have hphase := h.phase
  cases hst with
  | flushDone next => cases next <;> trivial
  | admitQueued _ _ => exact fun outcome hmem => absurd hmem List.not_mem_nil
  | @launched _ _ task tasks outcomes results _ =>
    intro outcome hmem
    rcases List.mem_append.1 hmem with hmem | hmem
    · exact hphase outcome hmem
    · obtain rfl := List.mem_singleton.1 hmem
      exact hlaunch task tasks outcomes rfl
  | collect =>
    intro job hjob
    obtain ⟨found, hfound, -, -, execution, hexecution, hnode, hhandle⟩ :=
      mem_collectRunning hinv.keys hjob
    exact ⟨execution, h.jobs _ found hfound execution hexecution, hnode, hhandle⟩
  | polled => exact fun job hjob => hphase job (List.mem_cons_of_mem _ hjob)
  | submit _ _ _ => exact hphase
  | cancel _ => exact hphase
  | reorderRuns _ => exact hphase
  | reorderJobs _ _ => exact hphase
  | _ => trivial

/-- What a step preserves of executions. -/
theorem ExecutionsHold.step (hinv : JobsInv s) (h : ExecutionsHold E s)
    (hlaunch : LaunchesHold E s label) (hst : Step cfg s label s') : ExecutionsHold E s' := by
  refine ⟨fun key job' hjob' execution hmem => ?_, h.phase_step hinv hlaunch hst⟩
  cases hjob : findJob s.daemon.runs key with
  | none =>
    obtain ⟨_, _, rfl⟩ := hst.job_new hinv.keysInv hjob hjob'
    cases hmem
  | some job =>
    obtain ⟨job₁, hjob₁, hbecame⟩ := hst.job hinv.keysInv hjob
    obtain rfl := Option.some.inj (hjob₁.symm.trans hjob')
    rcases hbecame.executions hmem with hmem | ⟨outcomes, outcome, hphase, hout, rfl, hmem⟩
    · exact h.jobs key job hjob execution hmem
    · have hholds := h.phase
      rw [hphase] at hholds
      exact hholds outcome hout execution hmem

/-! ### Answers of polls -/

/-- What holds of the answers that are to be applied. -/
def Phase.AnswersHold (R : PollEntry → Prop) : Phase → Prop
  | .polling _ entries => ∀ entry ∈ entries, R entry
  | _ => True

/-- What a poll that returns now has to make sure. -/
def PollsHold (R : PollEntry → Prop) (s : SchedulerState) : Label → Prop
  | .polled result tail => ∀ job todo entries, s.phase = .polling (job :: todo) entries →
      R (job.entry result tail)
  | _ => True

theorem Phase.AnswersHold.mono {R R' : PollEntry → Prop} (himp : ∀ entry, R entry → R' entry)
    {phase : Phase} (h : phase.AnswersHold R) : phase.AnswersHold R' := by
  cases phase with
  | polling todo entries => exact fun entry hentry => himp entry (h entry hentry)
  | _ => trivial

/-- What a step preserves of answers. -/
theorem Phase.AnswersHold.step {R : PollEntry → Prop} (h : s.phase.AnswersHold R)
    (hpoll : PollsHold R s label) (hst : Step cfg s label s') : s'.phase.AnswersHold R := by
  cases hst with
  | flushDone next => cases next <;> trivial
  | collect => exact fun entry hmem => absurd hmem List.not_mem_nil
  | @polled _ _ job todo entries result tail =>
    intro entry hmem
    rcases List.mem_append.1 hmem with hmem | hmem
    · exact h entry hmem
    · exact List.mem_singleton.1 hmem ▸ hpoll job todo entries rfl
  | submit _ _ _ => exact h
  | cancel _ => exact h
  | reorderRuns _ => exact h
  | reorderJobs _ _ => exact h
  | _ => trivial

/-- A job succeeds on an answer of exit code 0. -/
theorem JobStep.succeeded {key : JobKey} {job job' : JobInstance}
    (h : JobStep s key job label job') (hsucceeded : job'.state = .succeeded) :
    job.state = .succeeded ∨ ∃ entries entry, s.phase = .polling [] entries ∧ entry ∈ entries ∧
      entry.key = key ∧ entry.result = .ok (.exited 0) := by
  cases h with
  | same _ => exact .inl hsucceeded
  | marked _ => exact .inl (job.markCancelling_same.2.2.1.symm.trans hsucceeded)
  | queued _ _ _ => cases hsucceeded
  | skipped _ _ _ => cases hsucceeded
  | launched _ _ _ _ hlaunched =>
    cases hlaunched with
    | unreachable _ _ => exact .inl hsucceeded
    | turnedDown _ _ _ => exact .inl hsucceeded
    | _ => cases hsucceeded
  | @polled entries entry _ _ hphase hentry hkey _ hpolled =>
    cases hpolled with
    | running _ => exact .inl hsucceeded
    | unreachable _ _ => exact .inl hsucceeded
    | failed _ _ => cases hsucceeded
    | exited exitCode hexit =>
      refine .inr ⟨entries, entry, hphase, hentry, hkey, ?_⟩
      unfold JobInstance.exited at hsucceeded
      split at hsucceeded
      · cases hsucceeded
      split at hsucceeded
      · next hzero => rw [hexit, hzero]
      · cases hsucceeded

end Roster
