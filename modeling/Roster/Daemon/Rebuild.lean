import Roster.Daemon.Rows
import Roster.Scheduler.Find
import Roster.Scheduler.Jobs

/-!
# What is taken back

`JobInstance.takenBack` is what `take_back_runs` makes of one job; the rows of a run are handled one
after the other, and what a row says of its job afterwards is the state the job is in
(`RowsTakenBack`).  A rebuilt run agrees with its rows (`Agrees`), so what the rows say in order
makes it a run as the scheduler keeps them (`Agrees.runInv`).
-/

namespace Roster

/-- What `take_back_runs` makes of a job that has a row. -/
def JobInstance.takenBack (nodes : List Node) (found : JobKey → Option JobHandle) (runId : String)
    (now : DateTime) (row : JobRow) (job : JobInstance) : JobInstance :=
  if (job.restore row).state ≠ .running then job.restore row
  else match reattach nodes found runId row with
    | some execution => { job.restore row with executions := [execution] }
    | none => { job.restore row with state := .interrupted, endedAt := some now }

section Rows

variable {nodes : List Node} {found : JobKey → Option JobHandle} {runId : String} {now : DateTime}

theorem JobInstance.takenBack_same (row : JobRow) (job : JobInstance) :
    (job.takenBack nodes found runId now row).jobId = job.jobId ∧
      (job.takenBack nodes found runId now row).spec = job.spec ∧
      (job.takenBack nodes found runId now row).cancelling = job.cancelling := by
  unfold takenBack
  split
  · exact ⟨rfl, rfl, rfl⟩
  · split <;> exact ⟨rfl, rfl, rfl⟩

theorem reattach_eq_some {row : JobRow} {execution : Execution}
    (h : reattach nodes found runId row = some execution) :
    execution.node < nodes.length ∧ ∃ handle, execution.handle = some handle := by
  simp only [reattach, Option.bind_eq_bind, Option.bind_eq_some_iff, Option.pure_def] at h
  obtain ⟨node, hnode, allocation, -, ssh, -, h⟩ := h
  have hlt : node < nodes.length := (List.findIdx?_eq_some_iff_getElem.1 hnode).1
  split at h
  all_goals
    obtain ⟨handle, -, h⟩ := Option.bind_eq_some_iff.1 h
    obtain rfl := Option.some.inj h
    exact ⟨hlt, handle, rfl⟩

/-- A job that was not Running keeps the state and the exit code of its row. -/
theorem JobInstance.takenBack_of_ne {row : JobRow} (job : JobInstance)
    (h : JobState.fromStr row.state ≠ some .running) :
    job.takenBack nodes found runId now row = job.restore row := by
  rw [takenBack, if_pos]
  intro hrunning
  cases hstate : JobState.fromStr row.state with
  | none => simp [restore, hstate] at hrunning
  | some state =>
    refine h (hstate.trans (congrArg some ?_))
    simpa [restore, hstate] using hrunning

/-- A job is taken back with one execution, on a node there is, if it is Running, and with none
otherwise. -/
theorem JobInstance.takenBack_holds {row : JobRow} {job : JobInstance}
    (hnone : job.executions = []) :
    JobHolds (job.takenBack nodes found runId now row) ∧
      ∀ execution ∈ (job.takenBack nodes found runId now row).executions,
        execution.node < nodes.length := by
  unfold takenBack
  split
  · next hne =>
    refine ⟨⟨fun hrunning => absurd hrunning hne, fun _ => hnone⟩, fun execution hmem => ?_⟩
    rw [show (job.restore row).executions = [] from hnone] at hmem
    cases hmem
  · next hrunning =>
    rw [not_ne_iff] at hrunning
    split
    · next execution hfound =>
      obtain ⟨hlt, handle, hhandle⟩ := reattach_eq_some hfound
      refine ⟨⟨fun _ => ⟨execution, handle, rfl, hhandle⟩, fun hne => absurd hrunning hne⟩, ?_⟩
      intro e he
      rw [List.mem_singleton.1 he]
      exact hlt
    · refine ⟨⟨fun h => JobState.noConfusion h, fun _ => hnone⟩, fun execution hmem => ?_⟩
      rw [show ({ job.restore row with state := JobState.interrupted, endedAt := some now } :
        JobInstance).executions = [] from hnone] at hmem
      cases hmem

/-- What `take_back_runs` makes of a job, by the row it has, if any. -/
def JobInstance.takenBackBy (nodes : List Node) (found : JobKey → Option JobHandle)
    (runId : String) (now : DateTime) (rows : List JobRow) (job : JobInstance) : JobInstance :=
  match Keyed.get? JobRow.jobId rows job.jobId with
  | some row => job.takenBack nodes found runId now row
  | none => job

/-- What taking back one job did. -/
inductive RowTakenBack (nodes : List Node) (found : JobKey → Option JobHandle) (runId : String)
    (now : DateTime) (row : JobRow) (acc acc' : TakingBack) : Prop
  | unknown : Keyed.get? JobInstance.jobId acc.jobs row.jobId = none → acc' = acc →
      RowTakenBack nodes found runId now row acc acc'
  | kept {job : JobInstance} : Keyed.get? JobInstance.jobId acc.jobs row.jobId = some job →
      acc'.jobs = Keyed.modify JobInstance.jobId acc.jobs row.jobId
        (fun _ => job.takenBack nodes found runId now row) → acc'.store = acc.store →
      acc'.pools.length = acc.pools.length →
      (JobState.fromStr row.state).getD .pending =
        (job.takenBack nodes found runId now row).state →
      RowTakenBack nodes found runId now row acc acc'
  | interrupted {job : JobInstance} :
      Keyed.get? JobInstance.jobId acc.jobs row.jobId = some job →
      acc'.jobs = Keyed.modify JobInstance.jobId acc.jobs row.jobId
        (fun _ => job.takenBack nodes found runId now row) →
      acc'.store = acc.store.interrupt runId row.jobId now →
      acc'.pools.length = acc.pools.length →
      (JobState.fromStr row.state).getD .pending = .running →
      (job.takenBack nodes found runId now row).state = .interrupted →
      RowTakenBack nodes found runId now row acc acc'

/-- On pools for every node, taking back a job does not panic. -/
theorem takeBackJob_ok (found : JobKey → Option JobHandle) (runId : String) (now : DateTime)
    {acc : TakingBack} (hlen : acc.pools.length = nodes.length) (row : JobRow) :
    ∃ acc', takeBackJob nodes found runId now acc row = .ok acc' ∧
      RowTakenBack nodes found runId now row acc acc' := by
  unfold takeBackJob
  cases hjob : Keyed.get? JobInstance.jobId acc.jobs row.jobId with
  | none => exact ⟨acc, rfl, .unknown hjob rfl⟩
  | some job =>
    have hid : (job.restore row).jobId = row.jobId :=
      show job.jobId = row.jobId from Keyed.key_of_get? hjob
    dsimp only
    -- only a row that says Running is looked for on its node
    by_cases hne : (job.restore row).state ≠ .running
    · have htaken : job.takenBack nodes found runId now row = job.restore row := by
        rw [JobInstance.takenBack, if_pos hne]
      rw [if_pos hne]
      exact ⟨_, rfl, .kept hjob (by rw [htaken]) rfl rfl (by rw [htaken]; rfl)⟩
    rw [if_neg hne]
    cases hfound : reattach nodes found runId row with
    | some execution =>
      obtain ⟨hlt, -⟩ := reattach_eq_some hfound
      have htaken : job.takenBack nodes found runId now row =
          { job.restore row with executions := [execution] } := by
        rw [JobInstance.takenBack, if_neg hne, hfound]
      obtain ⟨pools, hpools⟩ : ∃ pools, Exec.update acc.pools execution.node (fun pool =>
          .ok (pool.book execution.allocation)) = .ok pools :=
        ⟨_, Exec.update_eq_ok.2 ⟨_, _, List.getElem?_eq_getElem (hlen ▸ hlt), rfl, rfl⟩⟩
      have hpoolsLen : pools.length = acc.pools.length := by
        obtain ⟨_, _, -, -, rfl⟩ := Exec.update_eq_ok.1 hpools
        exact List.length_set
      dsimp only
      rw [hpools, Exec.ok_bind]
      exact ⟨_, rfl, .kept hjob (by rw [htaken]) rfl hpoolsLen (by rw [htaken]; rfl)⟩
    | none =>
      have htaken : job.takenBack nodes found runId now row =
          { job.restore row with state := .interrupted, endedAt := some now } := by
        rw [JobInstance.takenBack, if_neg hne, hfound]
      refine ⟨_, rfl, .interrupted hjob ?_ ?_ rfl (not_ne_iff.1 hne) (by rw [htaken])⟩
      · rw [htaken]
      · exact congrArg (fun id => acc.store.interrupt runId id now) hid

/-- What taking back the jobs with these rows made of the jobs of a run. -/
structure JobsTakenBack (nodes : List Node) (found : JobKey → Option JobHandle) (runId : String)
    (now : DateTime) (rows : List JobRow) (jobs jobs' : List JobInstance) : Prop where
  ids : jobs'.map JobInstance.jobId = jobs.map JobInstance.jobId
  get : ∀ id, Keyed.get? JobInstance.jobId jobs' id = (Keyed.get? JobInstance.jobId jobs id).map
    (JobInstance.takenBackBy nodes found runId now rows)

theorem JobsTakenBack.nil (jobs : List JobInstance) :
    JobsTakenBack nodes found runId now [] jobs jobs where
  ids := rfl
  get id := by
    cases Keyed.get? JobInstance.jobId jobs id <;> rfl

/-- Of two groups of rows at most one has a row for a job. -/
theorem JobInstance.takenBackBy_cons {row : JobRow} {rows : List JobRow}
    (hnot : row.jobId ∉ rows.map JobRow.jobId) (job : JobInstance) :
    (job.takenBackBy nodes found runId now [row]).takenBackBy nodes found runId now rows =
      job.takenBackBy nodes found runId now (row :: rows) := by
  by_cases hid : row.jobId = job.jobId
  · have hnone : Keyed.get? JobRow.jobId rows job.jobId = none :=
      Keyed.get?_eq_none.2 fun other hother heq =>
        hnot (List.mem_map.2 ⟨other, hother, heq.trans hid.symm⟩)
    have hone : job.takenBackBy nodes found runId now [row] =
        job.takenBack nodes found runId now row := by
      rw [takenBackBy, Keyed.get?_cons, if_pos hid]
    rw [hone, takenBackBy, (job.takenBack_same row).1, hnone, takenBackBy, Keyed.get?_cons,
      if_pos hid]
  · have hone : job.takenBackBy nodes found runId now [row] = job := by
      rw [takenBackBy, Keyed.get?_cons, if_neg hid, Keyed.get?_nil]
    rw [hone, takenBackBy, takenBackBy, Keyed.get?_cons, if_neg hid]

theorem JobsTakenBack.cons {row : JobRow} {rows : List JobRow} {jobs mid jobs' : List JobInstance}
    (hnot : row.jobId ∉ rows.map JobRow.jobId)
    (hfirst : JobsTakenBack nodes found runId now [row] jobs mid)
    (hrest : JobsTakenBack nodes found runId now rows mid jobs') :
    JobsTakenBack nodes found runId now (row :: rows) jobs jobs' := by
  refine ⟨hrest.ids.trans hfirst.ids, fun id => ?_⟩
  rw [hrest.get, hfirst.get, Option.map_map]
  exact congrArg (Option.map · _) (funext (JobInstance.takenBackBy_cons hnot))

/-- The job of the row changes, and no other. -/
theorem RowTakenBack.jobs {row : JobRow} {acc acc' : TakingBack}
    (h : RowTakenBack nodes found runId now row acc acc') :
    JobsTakenBack nodes found runId now [row] acc.jobs acc'.jobs := by
  have hother : ∀ id other, Keyed.get? JobInstance.jobId acc.jobs id = some other →
      id ≠ row.jobId → other.takenBackBy nodes found runId now [row] = other := by
    intro id other hfind hid
    rw [JobInstance.takenBackBy, Keyed.get?_cons, if_neg]
    · rfl
    · exact fun heq => hid ((Keyed.key_of_get? hfind).symm.trans heq.symm)
  -- both kinds of a known job replace it in its place
  have hput : ∀ job, Keyed.get? JobInstance.jobId acc.jobs row.jobId = some job →
      acc'.jobs = Keyed.modify JobInstance.jobId acc.jobs row.jobId
        (fun _ => job.takenBack nodes found runId now row) →
      JobsTakenBack nodes found runId now [row] acc.jobs acc'.jobs := by
    intro job hjob hjobs
    have hkey : ∀ other : JobInstance, other.jobId = row.jobId →
        (job.takenBack nodes found runId now row).jobId = row.jobId := fun _ _ =>
      (job.takenBack_same row).1.trans (Keyed.key_of_get? hjob)
    refine ⟨by rw [hjobs]; exact Keyed.map_key_modify hkey, fun id => ?_⟩
    rw [hjobs]
    by_cases hid : id = row.jobId
    · subst hid
      rw [Keyed.get?_modify_self hkey, hjob, Option.map_some, Option.map_some,
        JobInstance.takenBackBy, Keyed.get?_cons,
        if_pos (show row.jobId = job.jobId from (Keyed.key_of_get? hjob).symm)]
    · rw [Keyed.get?_modify_ne hkey hid]
      cases hfind : Keyed.get? JobInstance.jobId acc.jobs id with
      | none => rfl
      | some other => rw [Option.map_some, hother id other hfind hid]
  cases h with
  | unknown hnone hsame =>
    subst hsame
    refine ⟨rfl, fun id => ?_⟩
    cases hfind : Keyed.get? JobInstance.jobId acc'.jobs id with
    | none => rfl
    | some job =>
      rw [Option.map_some, hother id job hfind]
      rintro rfl
      rw [hnone] at hfind
      cases hfind
  | kept hjob hjobs _ _ _ => exact hput _ hjob hjobs
  | interrupted hjob hjobs _ _ _ _ => exact hput _ hjob hjobs

/-- What taking back the jobs with these rows did. -/
structure RowsTakenBack (nodes : List Node) (found : JobKey → Option JobHandle) (runId : String)
    (now : DateTime) (rows : List JobRow) (acc acc' : TakingBack) : Prop where
  ids : acc'.jobs.map JobInstance.jobId = acc.jobs.map JobInstance.jobId
  pools : acc'.pools.length = acc.pools.length
  jobs : ∀ id, Keyed.get? JobInstance.jobId acc'.jobs id =
    (Keyed.get? JobInstance.jobId acc.jobs id).map
      (JobInstance.takenBackBy nodes found runId now rows)
  store : Interrupts acc.store acc'.store
  row : ∀ key, key ∉ rows.map (fun row => (runId, row.jobId)) →
    acc'.store.row? key = acc.store.row? key
  state : ∀ id job row, Keyed.get? JobInstance.jobId acc.jobs id = some job →
    Keyed.get? JobRow.jobId rows id = some row →
    acc'.store.stateOf (runId, id) = (job.takenBack nodes found runId now row).state

theorem RowsTakenBack.nil (acc : TakingBack) : RowsTakenBack nodes found runId now [] acc acc where
  ids := rfl
  pools := rfl
  jobs := (JobsTakenBack.nil acc.jobs).get
  store := .refl
  row _ _ := rfl
  state _ _ _ _ hrow := by cases hrow

theorem RowTakenBack.rows {row : JobRow} {acc acc' : TakingBack}
    (hcurrent : acc.store.row? (runId, row.jobId) = some row)
    (h : RowTakenBack nodes found runId now row acc acc') :
    RowsTakenBack nodes found runId now [row] acc acc' := by
  obtain ⟨hids, hget⟩ := h.jobs
  have hrow : ∀ id found, Keyed.get? JobRow.jobId [row] id = some found →
      id = row.jobId ∧ found = row := by
    intro id found hfound
    exact ⟨List.mem_singleton.1 (Keyed.mem_of_get? hfound) ▸ (Keyed.key_of_get? hfound).symm,
      List.mem_singleton.1 (Keyed.mem_of_get? hfound)⟩
  cases h with
  | unknown hnone hsame =>
    subst hsame
    refine ⟨rfl, rfl, hget, .refl, fun _ _ => rfl, fun id job found hjob hfound => ?_⟩
    obtain ⟨rfl, rfl⟩ := hrow id found hfound
    rw [hnone] at hjob
    cases hjob
  | kept hjob hjobs hstore hpools hstate =>
    refine ⟨hids, hpools, hget, hstore ▸ .refl, fun _ _ => by rw [hstore],
      fun id job found hjob' hfound => ?_⟩
    obtain ⟨rfl, rfl⟩ := hrow id found hfound
    obtain rfl := Option.some.inj (hjob.symm.trans hjob')
    rw [hstore, RunStore.stateOf_of_row? hcurrent, hstate]
  | interrupted hjob hjobs hstore hpools hrunning hstate =>
    have hwas : acc.store.stateOf (runId, row.jobId) = .running := by
      rw [RunStore.stateOf_of_row? hcurrent, hrunning]
    -- only the row of this job is written again
    refine ⟨hids, hpools, hget, hstore ▸ Interrupts.refl.tail now hwas, fun key hkey => ?_,
      fun id job found hjob' hfound => ?_⟩
    · rw [hstore, RunStore.row?_interrupt, if_neg]
      rintro rfl
      exact hkey (List.mem_singleton_self _)
    · obtain ⟨rfl, rfl⟩ := hrow id found hfound
      obtain rfl := Option.some.inj (hjob.symm.trans hjob')
      rw [hstore, RunStore.stateOf_interrupt _ _ _ _ _ (by rw [hwas]; decide), if_pos rfl, hstate]

theorem RowsTakenBack.cons {row : JobRow} {rows : List JobRow} {acc mid acc' : TakingBack}
    (hnot : row.jobId ∉ rows.map JobRow.jobId)
    (hfirst : RowsTakenBack nodes found runId now [row] acc mid)
    (hrest : RowsTakenBack nodes found runId now rows mid acc') :
    RowsTakenBack nodes found runId now (row :: rows) acc acc' := by
  have hjobs := JobsTakenBack.cons hnot ⟨hfirst.ids, hfirst.jobs⟩ ⟨hrest.ids, hrest.jobs⟩
  refine ⟨hjobs.ids, hrest.pools.trans hfirst.pools, hjobs.get,
    hfirst.store.trans hrest.store, fun key hkey => ?_, fun id job found hjob hfound => ?_⟩
  · rw [List.map_cons, List.mem_cons, not_or] at hkey
    rw [hrest.row key hkey.2, hfirst.row key fun hmem => hkey.1 (List.mem_singleton.1 hmem)]
  · rw [Keyed.get?_cons] at hfound
    split at hfound
    · next hid =>
      obtain rfl := Option.some.inj hfound
      have hfirstState := hfirst.state id job row hjob (by rw [Keyed.get?_cons, if_pos hid])
      rw [← hfirstState, RunStore.stateOf, RunStore.stateOf, hrest.row]
      intro hmem
      obtain ⟨other, hother, heq⟩ := List.mem_map.1 hmem
      exact hnot (List.mem_map.2 ⟨other, hother, (Prod.mk.inj heq).2.trans hid.symm⟩)
    · next hid =>
      refine hrest.state id job found ?_ hfound
      rw [hfirst.jobs, hjob, Option.map_some, JobInstance.takenBackBy,
        show job.jobId = id from Keyed.key_of_get? hjob, Keyed.get?_cons, if_neg hid,
        Keyed.get?_nil]

/-- On pools for every node, taking back jobs by their current rows does not panic. -/
theorem takeBackJobs_ok (found : JobKey → Option JobHandle) (runId : String) (now : DateTime)
    (rows : List JobRow) (acc : TakingBack) (hlen : acc.pools.length = nodes.length)
    (hnodup : (rows.map JobRow.jobId).Nodup)
    (hcurrent : ∀ row ∈ rows, acc.store.row? (runId, row.jobId) = some row) :
    ∃ acc', rows.foldlM (takeBackJob nodes found runId now) acc = .ok acc' ∧
      RowsTakenBack nodes found runId now rows acc acc' := by
  induction rows generalizing acc with
  | nil => exact ⟨acc, rfl, .nil acc⟩
  | cons row rows ih =>
    rw [List.map_cons, List.nodup_cons] at hnodup
    rw [List.forall_mem_cons] at hcurrent
    obtain ⟨mid, hmid, htaken⟩ := takeBackJob_ok found runId now hlen row
    have hfirst := htaken.rows hcurrent.1
    obtain ⟨acc', hacc', hrest⟩ := ih mid (hfirst.pools.trans hlen) hnodup.2 fun other hother => by
      rw [hfirst.row, hcurrent.2 other hother]
      intro hmem
      have heq := List.mem_singleton.1 hmem
      exact hnodup.1 (List.mem_map.2 ⟨other, hother, (Prod.mk.inj heq).2⟩)
    exact ⟨acc', by rw [List.foldlM_cons, hmid, Exec.ok_bind, hacc'], hfirst.cons hnodup.1 hrest⟩

end Rows

end Roster
