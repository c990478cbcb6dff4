import Roster.Scheduler.State

/-!
# Jobs by key

How looking up and changing jobs over all runs go together: `updateJob` changes what `findJob`
finds under its own key and nothing else.  `KeptExcept keys runs runs'` is what a section leaves
behind that changes the jobs of `keys` one by one: the same runs with the same jobs, and every job
with another key as it was.
-/

namespace Roster

variable {runs runs' : List WorkflowRun} {key k : JobKey} {f : JobInstance → JobInstance}

theorem findJob_eq_of_findRun {run : WorkflowRun} (h : findRun runs k.1 = some run) :
    findJob runs k = run.job? k.2 := by simp [findJob, h]

theorem findJob_eq_some {job : JobInstance} : findJob runs key = some job ↔
    ∃ run, findRun runs key.1 = some run ∧ run.job? key.2 = some job := by
  simp [findJob, Option.bind_eq_some_iff]

theorem findRun_runId {id : String} {run : WorkflowRun} (h : findRun runs id = some run) :
    run.runId = id := Keyed.key_of_get? h

theorem findJob_jobId {job : JobInstance} (h : findJob runs key = some job) :
    job.jobId = key.2 := by
  obtain ⟨run, -, hjob⟩ := findJob_eq_some.1 h
  exact Keyed.key_of_get? hjob

theorem map_runId_updateJob : (updateJob runs key f).map WorkflowRun.runId =
    runs.map WorkflowRun.runId := Keyed.map_key_modify fun _ h => h

theorem findRun_updateJob (id : String) : findRun (updateJob runs key f) id =
    if id = key.1 then (findRun runs id).map fun run =>
      { run with jobs := Keyed.modify JobInstance.jobId run.jobs key.2 f }
    else findRun runs id := by
  unfold findRun updateJob
  split
  · next h => subst h; exact Keyed.get?_modify_self fun _ h => h
  · next h => exact Keyed.get?_modify_ne (fun _ h => h) h

theorem findJob_updateJob (hf : ∀ job : JobInstance, job.jobId = key.2 → (f job).jobId = key.2) :
    findJob (updateJob runs key f) k =
      if k = key then (findJob runs k).map f else findJob runs k := by
  unfold findJob
  rw [findRun_updateJob]
  by_cases hrun : k.1 = key.1
  · rw [if_pos hrun, Option.bind_map]
    by_cases hjob : k.2 = key.2
    · rw [if_pos (Prod.ext hrun hjob), Option.map_bind]
      congr 1
      funext run
      rw [Function.comp_apply, Function.comp_apply, WorkflowRun.job?, hjob]
      exact Keyed.get?_modify_self hf
    · rw [if_neg fun h => hjob (congrArg Prod.snd h)]
      congr 1
      funext run
      exact Keyed.get?_modify_ne hf hjob
  · rw [if_neg hrun, if_neg fun h => hrun (congrArg Prod.fst h)]

theorem findJob_updateJob_self (hf : ∀ job : JobInstance, job.jobId = key.2 → (f job).jobId = key.2)
    {job : JobInstance} (hjob : findJob runs key = some job) :
    findJob (updateJob runs key f) key = some (f job) := by
  rw [findJob_updateJob hf, if_pos rfl, hjob, Option.map_some]

/-- The state of the job of a key, if it is there. -/
def stateIn (runs : List WorkflowRun) (key : JobKey) : Option JobState :=
  (findJob runs key).map JobInstance.state

theorem stateIn_eq_some {state : JobState} :
    stateIn runs key = some state ↔ ∃ job, findJob runs key = some job ∧ job.state = state := by
  rw [stateIn, Option.map_eq_some_iff]

theorem stateIn_eq_none :
    stateIn runs key = none ↔ findJob runs key = none := by
  rw [stateIn, Option.map_eq_none_iff]

theorem stateIn_eq_stateOf {id : String} {run : WorkflowRun}
    (hrun : findRun runs id = some run) (jobId : String) :
    stateIn runs (id, jobId) = run.stateOf jobId := by
  rw [stateIn, findJob_eq_of_findRun (k := (id, jobId)) hrun, WorkflowRun.stateOf]

/-- The runs are the same, with the same jobs, and only jobs of `keys` may differ. -/
structure KeptExcept (keys : List JobKey) (runs runs' : List WorkflowRun) : Prop where
  ids : runs'.map WorkflowRun.runId = runs.map WorkflowRun.runId
  run : ∀ id, (findRun runs id = none ∧ findRun runs' id = none) ∨
    ∃ run run', findRun runs id = some run ∧ findRun runs' id = some run' ∧
      run'.runId = run.runId ∧ run'.spec = run.spec ∧
      run'.jobs.map JobInstance.jobId = run.jobs.map JobInstance.jobId
  kept : ∀ k, k ∉ keys → findJob runs' k = findJob runs k

namespace KeptExcept

theorem refl (runs : List WorkflowRun) : KeptExcept [] runs runs :=
  ⟨rfl, fun id => by
    cases h : findRun runs id with
    | none => exact .inl ⟨rfl, rfl⟩
    | some run => exact .inr ⟨run, run, rfl, rfl, rfl, rfl, rfl⟩, fun _ _ => rfl⟩

theorem mono {keys keys' : List JobKey} (h : KeptExcept keys runs runs') (hsub : keys ⊆ keys') :
    KeptExcept keys' runs runs' :=
  ⟨h.ids, h.run, fun k hk => h.kept k fun hmem => hk (hsub hmem)⟩

theorem trans {keys keys' : List JobKey} {runs'' : List WorkflowRun}
    (h : KeptExcept keys runs runs') (h' : KeptExcept keys' runs' runs'') :
    KeptExcept (keys ++ keys') runs runs'' := by
  refine ⟨h'.ids.trans h.ids, fun id => ?_, fun k hk => ?_⟩
  · rcases h.run id with ⟨hnone, hnone'⟩ | ⟨run, run', hrun, hrun', hid, hspec, hjobs⟩
    · rcases h'.run id with ⟨-, hnone''⟩ | ⟨_, _, hsome, -⟩
      · exact .inl ⟨hnone, hnone''⟩
      · rw [hnone'] at hsome; cases hsome
    · rcases h'.run id with ⟨hnone, -⟩ | ⟨_, run'', hsome, hrun'', hid', hspec', hjobs'⟩
      · rw [hrun'] at hnone; cases hnone
      · obtain rfl := Option.some.inj (hrun'.symm.trans hsome)
        exact .inr ⟨run, run'', hrun, hrun'', hid'.trans hid, hspec'.trans hspec,
          hjobs'.trans hjobs⟩
  · rw [List.mem_append, not_or] at hk
    rw [h'.kept k hk.2, h.kept k hk.1]

theorem updateJob (hf : ∀ job : JobInstance, job.jobId = key.2 → (f job).jobId = key.2) :
    KeptExcept [key] runs (updateJob runs key f) := by
  refine ⟨map_runId_updateJob, fun id => ?_, fun k hk => ?_⟩
  · rw [findRun_updateJob]
    cases hrun : findRun runs id with
    | none => exact .inl ⟨rfl, by split <;> rfl⟩
    | some run =>
      by_cases hid : id = key.1
      · rw [if_pos hid, Option.map_some]
        exact .inr ⟨run, _, rfl, rfl, rfl, rfl, Keyed.map_key_modify hf⟩
      · rw [if_neg hid]
        exact .inr ⟨run, run, rfl, rfl, rfl, rfl, rfl⟩
  · rw [findJob_updateJob hf, if_neg fun h : k = key => hk (List.mem_singleton.2 h)]

end KeptExcept

end Roster
