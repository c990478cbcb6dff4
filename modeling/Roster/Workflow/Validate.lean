import Roster.Workflow.Dag

/-!
# Validation is exact

`Dag.WellFormed` says what a workflow has to be: at least one job, distinct ids, dependencies that
name its jobs, and no cycle among them, where a job that names itself is a cycle and a dependency
named twice counts as one.

Kahn's loop counts a repeated dependency as often as it is named, in the degrees and in the
dependents alike, so that a degree never goes below 0 (`RelaxInv.foldlM_ok`).  The loop ends with an
empty queue (`drain_queue`); whatever is then missing from the order waits for something else that
is missing, so there is a cycle (`KahnInv.exists_cycle`).  `validate_exact` puts this together, for
every iteration order of the hash maps.
-/

namespace Roster

/-- A job of the second id names the first id as a dependency. -/
def WorkflowSpec.NamesDep (spec : WorkflowSpec) (dep id : String) : Prop :=
  ∃ job ∈ spec.jobs, job.id = id ∧ dep ∈ job.dependsOn

namespace Dag

variable {spec : WorkflowSpec} {before relaxed : List String} {state state' : TopoState}

/-- Every dependency names a job of the workflow. -/
def DepsKnown (spec : WorkflowSpec) : Prop :=
  ∀ job ∈ spec.jobs, ∀ dep ∈ job.dependsOn, dep ∈ spec.ids

/-- What a workflow has to be. -/
structure WellFormed (spec : WorkflowSpec) : Prop where
  nonempty : spec.jobs ≠ []
  distinct : spec.ids.Nodup
  known : DepsKnown spec
  acyclic : ∀ id, ¬ Relation.TransGen spec.NamesDep id id

theorem mem_depsOf (hids : spec.ids.Nodup) {dep id : String} :
    dep ∈ spec.depsOf id ↔ spec.NamesDep dep id := by
  constructor
  · intro h
    rw [WorkflowSpec.depsOf] at h
    cases hget : Keyed.get? JobSpec.id spec.jobs id with
    | none => rw [hget] at h; cases h
    | some job =>
      rw [hget] at h
      exact ⟨job, Keyed.mem_of_get? hget, Keyed.key_of_get? hget, h⟩
  · rintro ⟨job, hjob, rfl, hdep⟩
    rwa [depsOf_eq hids hjob]

/-! ### The first two checks accept -/

theorem checkDuplicateIdsFrom_ok {seen : List String} {jobs : List JobSpec}
    (hnodup : (jobs.map JobSpec.id).Nodup) (hnew : ∀ job ∈ jobs, job.id ∉ seen) :
    checkDuplicateIdsFrom seen jobs = .ok () := by
  induction jobs generalizing seen with
  | nil => rfl
  | cons job jobs ih =>
    rw [List.map_cons, List.nodup_cons] at hnodup
    obtain ⟨hjob, hrest⟩ := List.forall_mem_cons.1 hnew
    rw [checkDuplicateIdsFrom, if_pos hjob]
    refine ih hnodup.2 fun other hother hseen => ?_
    rcases List.mem_cons.1 hseen with hid | hseen
    · exact hnodup.1 (hid ▸ List.mem_map_of_mem hother)
    · exact hrest other hother hseen

theorem checkDuplicateIds_iff : checkDuplicateIds spec = .ok () ↔ spec.ids.Nodup :=
  ⟨fun h => (checkDuplicateIdsFrom_eq_ok h).1,
    fun h => checkDuplicateIdsFrom_ok h fun _ _ => List.not_mem_nil⟩

theorem checkUnknownDeps_ok {known : List String} {jobs : List JobSpec}
    (h : ∀ job ∈ jobs, ∀ dep ∈ job.dependsOn, dep ∈ known) :
    forM jobs (checkDeps known) = .ok () := by
  induction jobs with
  | nil => rfl
  | cons job jobs ih =>
    obtain ⟨hjob, hrest⟩ := List.forall_mem_cons.1 h
    have hnone : (job.dependsOn.find? fun dep => decide (dep ∉ known)) = none :=
      List.find?_eq_none.2 fun dep hdep => by simpa using hjob dep hdep
    rw [List.forM_cons, checkDeps, hnone]
    exact ih hrest

theorem checkUnknownDeps_iff : checkUnknownDeps spec = .ok () ↔ DepsKnown spec :=
  ⟨checkUnknownDeps_eq_ok, checkUnknownDeps_ok⟩

/-! ### No degree goes below 0 -/

/-- While no job's degree is asked to go further down than what it still waits for, going through
the dependents succeeds. -/
theorem RelaxInv.foldlM_ok {dependents : List String} (hinv : RelaxInv spec before relaxed state)
    (hdeps : ∀ id ∈ dependents, id ∈ spec.ids)
    (hcount : ∀ job ∈ spec.jobs, (relaxed ++ dependents).count job.id ≤
      (job.dependsOn.filter fun dep => dep ∉ before).length) :
    ∃ state', dependents.foldlM Dag.relax state = .ok state' := by
  induction dependents generalizing state relaxed with
  | nil => exact ⟨state, rfl⟩
  | cons dependent dependents ih =>
    obtain ⟨hdep, hrest⟩ := List.forall_mem_cons.1 hdeps
    obtain ⟨mid, hmid⟩ : ∃ mid, Dag.relax state dependent = .ok mid := by
      obtain ⟨job, hjob, rfl⟩ := List.mem_map.1 hdep
      have hdegree := hinv.degree job hjob
      have hle := hcount job hjob
      rw [List.count_append, List.count_cons_self] at hle
      -- this dependent is still to come, so its degree is not 0 yet
      obtain ⟨degree, hpos⟩ : ∃ degree, lookup state.inDegree 0 job.id = degree + 1 :=
        Nat.exists_eq_succ_of_ne_zero (by omega)
      exact ⟨_, by rw [Dag.relax, hpos]⟩
    obtain ⟨state', hstate'⟩ := ih (hinv.relax hdep hmid) hrest fun job hjob => by
      rw [List.append_assoc, List.singleton_append]
      exact hcount job hjob
    exact ⟨state', by rw [List.foldlM_cons, hmid, Exec.ok_bind, hstate']⟩

/-- One round of the loop does not panic. -/
theorem KahnInv.round_ok {jobId : String} {queue : List String} (hids : spec.ids.Nodup)
    (hinv : KahnInv spec state) (hqueue : state.queue = jobId :: queue) :
    ∃ state', (lookup (dependents spec) [] jobId).foldlM relax
      { state with queue := queue, order := state.order ++ [jobId] } = .ok state' := by
  refine (hinv.relaxInv hqueue).foldlM_ok (fun id => mem_ids_of_dependents) fun job hjob => ?_
  rw [List.nil_append, count_dependents hids hjob,
    ← length_filter_notMem_append job.dependsOn (hinv.fresh hqueue)]
  exact Nat.le_add_left _ _

theorem KahnInv.drain_ok {fuel : ℕ} (hids : spec.ids.Nodup) (hinv : KahnInv spec state) :
    ∃ state', Dag.drain spec fuel state = .ok state' := by
  induction fuel generalizing state with
  | zero => exact ⟨state, rfl⟩
  | succ fuel ih =>
    rw [Dag.drain]
    split
    · exact ⟨state, rfl⟩
    · next jobId queue hqueue =>
      obtain ⟨mid, hmid⟩ := hinv.round_ok hids hqueue
      obtain ⟨state', hstate'⟩ := ih (hinv.round hids hqueue hmid)
      exact ⟨state', by rw [hmid, Exec.ok_bind, hstate']⟩

/-- Rounds beyond the last one change nothing. -/
theorem drain_of_le {fuel rounds : ℕ} (h : drain spec fuel state = .ok state')
    (hqueue : state'.queue = []) (hle : fuel ≤ rounds) : drain spec rounds state = .ok state' := by
  induction fuel generalizing state rounds with
  | zero =>
    obtain rfl := Except.ok.inj h
    cases rounds with
    | zero => rfl
    | succ rounds => rw [drain, hqueue]
  | succ fuel ih =>
    obtain ⟨rounds, rfl⟩ := Nat.exists_eq_add_of_le' (Nat.one_le_of_lt hle)
    rw [drain] at h ⊢
    split at h
    · exact h
    · obtain ⟨mid, hmid, hrest⟩ := Exec.bind_eq_ok.1 h
      rw [hmid, Exec.ok_bind]
      exact ih hrest (Nat.le_of_succ_le_succ hle)

/-! ### What is missing from the order -/

/-- An order is as long as the workflow when no job is missing from it. -/
theorem KahnInv.length_iff (hids : spec.ids.Nodup) (hinv : KahnInv spec state) :
    state.order.length = spec.jobs.length ↔ ∀ id ∈ spec.ids, id ∈ state.order := by
  constructor
  · intro hlen id hid
    exact (hinv.order_perm hlen).mem_iff.2 hid
  · intro hall
    refine le_antisymm ?_ ?_
    · simpa [WorkflowSpec.ids] using hinv.order_subperm.length_le
    · simpa [WorkflowSpec.ids] using (hids.subperm hall).length_le

/-- With the queue empty, a job that is missing from the order waits for another one that is. -/
theorem KahnInv.waits (hinv : KahnInv spec state) (hqueue : state.queue = [])
    (hknown : DepsKnown spec) {id : String} (hid : id ∈ spec.ids.filter (· ∉ state.order)) :
    ∃ dep ∈ spec.ids.filter (· ∉ state.order), spec.NamesDep dep id := by
  obtain ⟨hids, hnot⟩ := List.mem_filter.1 hid
  obtain ⟨job, hjob, rfl⟩ := List.mem_map.1 hids
  -- its degree is not 0, so some dependency is missing as well
  have hdegree : lookup state.inDegree 0 job.id ≠ 0 := fun hzero => by
    have hin := (hinv.zero job hjob).1 hzero
    rw [hqueue, List.append_nil] at hin
    exact absurd hin (by simpa using hnot)
  rw [hinv.degree job hjob] at hdegree
  obtain ⟨dep, hdep⟩ := List.exists_mem_of_length_pos (Nat.pos_of_ne_zero hdegree)
  obtain ⟨hdep, hmiss⟩ := List.mem_filter.1 hdep
  exact ⟨dep, List.mem_filter.2 ⟨hknown job hjob dep hdep, hmiss⟩, job, hjob, rfl, hdep⟩

/-- So it lies behind a cycle, or on one. -/
theorem KahnInv.exists_cycle (hinv : KahnInv spec state) (hqueue : state.queue = [])
    (hknown : DepsKnown spec) {id : String} (hid : id ∈ spec.ids) (hmissing : id ∉ state.order) :
    ∃ dep, Relation.TransGen spec.NamesDep dep dep ∧
      Relation.ReflTransGen spec.NamesDep dep id :=
  exists_cycle_before (fun _ => hinv.waits hqueue hknown)
    (List.mem_filter.2 ⟨hid, decide_eq_true hmissing⟩)

theorem namesDep_eq (hids : spec.ids.Nodup) :
    (fun dep id => dep ∈ spec.depsOf id) = spec.NamesDep := by
  funext dep id
  exact propext (mem_depsOf hids)

/-- A full order leaves no room for a cycle. -/
theorem acyclic_of_topological (hids : spec.ids.Nodup) {order : List String}
    (hperm : order.Perm spec.ids) (htopo : Topological spec.depsOf order) (id : String) :
    ¬ Relation.TransGen spec.NamesDep id id := by
  intro hcycle
  have hmem : id ∈ spec.ids := by
    cases hcycle with
    | single h => obtain ⟨job, hjob, rfl, -⟩ := h; exact List.mem_map_of_mem hjob
    | tail _ h => obtain ⟨job, hjob, rfl, -⟩ := h; exact List.mem_map_of_mem hjob
  exact htopo.acyclic (hperm.mem_iff.2 hmem) (namesDep_eq hids ▸ hcycle)

/-! ### The whole check -/

/-- What Kahn's loop leaves behind, and what `topo_sort` makes of it. -/
theorem topoSort_spec (hids : spec.ids.Nodup) {iter : List JobSpec} (hiter : iter.Perm spec.jobs) :
    ∃ state, KahnInv spec state ∧ state.queue = [] ∧
      state.inDegree.map Prod.fst = iter.map JobSpec.id ∧
      (∀ rounds, (topoStart iter).measure ≤ rounds →
        drain spec rounds (topoStart iter) = .ok state) ∧
      topoSort spec iter = .ok (if state.order.length ≠ spec.jobs.length then
        .error (.cycle (((state.inDegree.find? fun entry => decide (0 < entry.2)).map
          Prod.fst).getD "unknown"))
        else .ok state.order) := by
  have hstart := kahnInv_start hiter hids
  obtain ⟨state, hdrain⟩ : ∃ state, drain spec (topoStart iter).measure (topoStart iter) =
      .ok state := hstart.drain_ok hids
  have hkeys : (topoStart iter).inDegree.map Prod.fst = iter.map JobSpec.id := by
    simp [topoStart]
  have hnodup := (hiter.map JobSpec.id).nodup_iff.2 hids
  have hqueue := drain_queue (hkeys ▸ hnodup) le_rfl hdrain
  refine ⟨state, hstart.drain hids hdrain, hqueue, (drain_keys hdrain).trans hkeys,
    fun rounds => drain_of_le hdrain hqueue, ?_⟩
  rw [topoSort, hdrain, Exec.ok_bind]
  split <;> rfl

/-- **Validation is exact.**  Whatever the iteration order of the hash maps, `validate` returns, and
accepts exactly the well-formed workflows; with distinct ids and known dependencies the loop of
`topo_sort` ends with an empty queue and without underflow, and the order it returns is all the ids
with every dependency before its dependents. -/
theorem validate_exact (spec : WorkflowSpec) (iter : List JobSpec) (hiter : iter.Perm spec.jobs) :
    (∃ result, validate spec iter = .ok result) ∧
      (validate spec iter = .ok (.ok ()) ↔ WellFormed spec) ∧
      (spec.ids.Nodup → DepsKnown spec →
        (∃ state, state.queue = [] ∧ ∀ rounds, (topoStart iter).measure ≤ rounds →
          drain spec rounds (topoStart iter) = .ok state) ∧
        ∀ order, topoSort spec iter = .ok (.ok order) →
          order.Perm spec.ids ∧ Topological spec.depsOf order) := by
  -- the sort is exact once the ids are distinct and the dependencies known
  have hsort : spec.ids.Nodup → DepsKnown spec →
      (∃ state, state.queue = [] ∧ ∀ rounds, (topoStart iter).measure ≤ rounds →
        drain spec rounds (topoStart iter) = .ok state) ∧
      ∀ order, topoSort spec iter = .ok (.ok order) →
        order.Perm spec.ids ∧ Topological spec.depsOf order := by
    intro hids _
    obtain ⟨state, hinv, hqueue, -, hdrain, hsorted⟩ := topoSort_spec hids hiter
    refine ⟨⟨state, hqueue, hdrain⟩, fun order horder => ?_⟩
    rw [hsorted, Except.ok.injEq] at horder
    split at horder
    · cases horder
    · next hlen =>
      obtain rfl := Except.ok.inj horder
      exact ⟨hinv.order_perm (not_ne_iff.1 hlen), hinv.topological⟩
  suffices h : ∃ result, validate spec iter = .ok result ∧ (result = .ok () ↔ WellFormed spec) by
    obtain ⟨result, hval, hiff⟩ := h
    refine ⟨⟨result, hval⟩, ?_, hsort⟩
    rw [hval, Except.ok.injEq]
    exact hiff
  unfold validate
  -- the checks in the order in which they are made, each passed before the next
  by_cases hempty : spec.jobs = []
  · exact ⟨.error .emptyWorkflow, by simp [hempty], by simp, fun h => absurd hempty h.nonempty⟩
  rw [if_neg (by simpa using hempty)]
  cases hdup : checkDuplicateIds spec with
  | error error =>
    refine ⟨.error error, rfl, by simp, fun h => ?_⟩
    rw [checkDuplicateIds_iff.2 h.distinct] at hdup
    cases hdup
  | ok _ =>
  have hids := checkDuplicateIds_iff.1 hdup
  cases hdeps : checkUnknownDeps spec with
  | error error =>
    refine ⟨.error error, rfl, by simp, fun h => ?_⟩
    rw [checkUnknownDeps_iff.2 h.known] at hdeps
    cases hdeps
  | ok _ =>
  have hknown := checkUnknownDeps_iff.1 hdeps
  obtain ⟨state, hinv, hqueue, -, -, hsorted⟩ := topoSort_spec hids hiter
  dsimp only
  rw [hsorted, Exec.ok_bind]
  by_cases hlen : state.order.length = spec.jobs.length
  · -- the order is full, so there is no cycle
    rw [if_neg (not_ne_iff.2 hlen)]
    refine ⟨.ok (), rfl, fun _ => ⟨hempty, hids, hknown, ?_⟩, fun _ => rfl⟩
    exact acyclic_of_topological hids (hinv.order_perm hlen) hinv.topological
  · -- some id is missing from the order, so there is a cycle
    rw [if_pos hlen]
    refine ⟨.error _, rfl, by simp, fun h => absurd ?_ hlen⟩
    refine (hinv.length_iff hids).2 fun id hid => ?_
    by_contra hmissing
    obtain ⟨dep, hcycle, -⟩ := hinv.exists_cycle hqueue hknown hid hmissing
    exact h.acyclic dep hcycle

/-- Two paths from `load` to `report`; `clean` names `load` twice. -/
def diamond : WorkflowSpec :=
  ⟨"diamond", [⟨"load", "l", [], {}⟩, ⟨"clean", "c", ["load", "load"], {}⟩,
    ⟨"train", "t", ["load"], {}⟩, ⟨"report", "r", ["train", "clean"], {}⟩]⟩

/-- The diamond is accepted, so it is well-formed, and its order has every dependency first. -/
theorem diamond_wellFormed :
    WellFormed diamond ∧ Topological diamond.depsOf ["load", "clean", "train", "report"] := by
  obtain ⟨-, hiff, hsort⟩ := validate_exact diamond diamond.jobs.reverse (by decide)
  have hwell : WellFormed diamond := hiff.1 (by decide)
  exact ⟨hwell, ((hsort hwell.distinct hwell.known).2 _ (by decide)).2⟩

end Dag

end Roster
