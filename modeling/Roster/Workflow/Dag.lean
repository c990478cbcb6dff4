import Roster.Data.Exec
import Roster.Data.Keyed
import Roster.Graph.Topological
import Roster.Workflow.Spec
import Mathlib.Data.List.Nodup
import Mathlib.Data.List.Perm.Subperm

/-!
# Accepting a workflow

`Dag.validate` accepts a workflow with at least one job, distinct ids, dependencies that name jobs
of the workflow, and no cycle among them.  Kahn's algorithm starts from the jobs without
dependencies in the iteration order of a hash map, which is the parameter `iter`: the jobs in an
arbitrary order.

What is used of an accepted workflow is that its jobs can be listed with every job after its
dependencies (`Dag.exists_topological`).
-/

namespace Roster

/-- Why a workflow is refused. -/
inductive DagError
  | emptyWorkflow
  | duplicateJobId (jobId : String)
  | unknownDependency (jobId depId : String)
  | cycle (jobId : String)
  deriving DecidableEq, Repr

/-- The ids of the jobs, in document order. -/
def WorkflowSpec.ids (spec : WorkflowSpec) : List String := spec.jobs.map JobSpec.id

/-- What the job of that id depends on. -/
def WorkflowSpec.depsOf (spec : WorkflowSpec) (id : String) : List String :=
  ((Keyed.get? JobSpec.id spec.jobs id).map JobSpec.dependsOn).getD []

namespace Dag

/-- The loop of `check_duplicate_ids`; `seen` are the ids so far. -/
def checkDuplicateIdsFrom (seen : List String) : List JobSpec → Except DagError Unit
  | [] => .ok ()
  | job :: jobs =>
    if job.id ∉ seen then checkDuplicateIdsFrom (job.id :: seen) jobs
    else .error (.duplicateJobId job.id)

/-- `check_duplicate_ids`. -/
def checkDuplicateIds (spec : WorkflowSpec) : Except DagError Unit :=
  checkDuplicateIdsFrom [] spec.jobs

/-- The first dependency of a job that is not known. -/
def checkDeps (known : List String) (job : JobSpec) : Except DagError Unit :=
  match job.dependsOn.find? fun dep => decide (dep ∉ known) with
  | none => .ok ()
  | some dep => .error (.unknownDependency job.id dep)

/-- `check_unknown_deps`. -/
def checkUnknownDeps (spec : WorkflowSpec) : Except DagError Unit :=
  forM spec.jobs (checkDeps spec.ids)

/-! ### Kahn's algorithm -/

/-- The local variables of `topo_sort`; `inDegree` is listed in the iteration order of the map. -/
structure TopoState where
  inDegree : List (String × ℕ)
  queue : List String
  order : List String
  deriving DecidableEq

/-- `map.entry(id)` read with its default. -/
def lookup {α : Type} (map : List (String × α)) (default : α) (id : String) : α :=
  ((Keyed.get? Prod.fst map id).map Prod.snd).getD default

/-- `dependents.entry(dep).or_default().push(id)`. -/
def pushDependent (id : String) (map : List (String × List String)) (dep : String) :
    List (String × List String) :=
  Keyed.insert Prod.fst map (dep, lookup map [] dep ++ [id])

/-- The map from a job to the jobs that depend on it. -/
def dependents (spec : WorkflowSpec) : List (String × List String) :=
  spec.jobs.foldl (fun map job => job.dependsOn.foldl (pushDependent job.id) map)
    (spec.jobs.map fun job => (job.id, []))

/-- One dependent of the job that was taken from the queue. -/
def relax (state : TopoState) (dependent : String) : Exec TopoState :=
  match lookup state.inDegree 0 dependent with
  | 0 => .error .underflow
  | degree + 1 =>
    .ok { state with
      inDegree := Keyed.insert Prod.fst state.inDegree (dependent, degree)
      queue := if degree = 0 then state.queue ++ [dependent] else state.queue }

/-- The loop over the queue, for at most `fuel` rounds. -/
def drain (spec : WorkflowSpec) : ℕ → TopoState → Exec TopoState
  | 0, state => .ok state
  | fuel + 1, state =>
    match state.queue with
    | [] => .ok state
    | jobId :: queue => do
      let state ← (lookup (dependents spec) [] jobId).foldlM relax
        { state with queue := queue, order := state.order ++ [jobId] }
      drain spec fuel state

/-- The state the loop starts in. -/
def topoStart (iter : List JobSpec) : TopoState where
  inDegree := iter.map fun job => (job.id, job.dependsOn.length)
  queue := (iter.filter fun job => decide (job.dependsOn.length = 0)).map JobSpec.id
  order := []

/-- Each round takes one job from the queue, and a job enters it by its degree going down, so the
degrees and the queue together bound the number of rounds. -/
def TopoState.measure (state : TopoState) : ℕ :=
  (state.inDegree.map Prod.snd).sum + state.queue.length

/-- `topo_sort`. -/
def topoSort (spec : WorkflowSpec) (iter : List JobSpec) :
    Exec (Except DagError (List String)) := do
  let state ← drain spec (topoStart iter).measure (topoStart iter)
  if state.order.length ≠ spec.jobs.length then
    let cycled := ((state.inDegree.find? fun entry => decide (0 < entry.2)).map Prod.fst).getD
      "unknown"
    return .error (.cycle cycled)
  else return .ok state.order

/-- `validate`. -/
def validate (spec : WorkflowSpec) (iter : List JobSpec) : Exec (Except DagError Unit) :=
  if spec.jobs.isEmpty then .ok (.error .emptyWorkflow)
  else match checkDuplicateIds spec with
    | .error error => .ok (.error error)
    | .ok () => match checkUnknownDeps spec with
      | .error error => .ok (.error error)
      | .ok () => do
        match ← topoSort spec iter with
        | .error error => return .error error
        | .ok _ => return .ok ()

/-- Some iteration order of the map accepts the workflow. -/
def Accepts (spec : WorkflowSpec) : Prop :=
  ∃ iter : List JobSpec, iter.Perm spec.jobs ∧ validate spec iter = .ok (.ok ())

/-! ### The first two checks -/

theorem checkDuplicateIdsFrom_eq_ok {seen : List String} {jobs : List JobSpec}
    (h : checkDuplicateIdsFrom seen jobs = .ok ()) :
    (jobs.map JobSpec.id).Nodup ∧ ∀ job ∈ jobs, job.id ∉ seen := by
  induction jobs generalizing seen with
  | nil => simp
  | cons job jobs ih =>
    rw [checkDuplicateIdsFrom] at h
    split at h
    · next hnew =>
      obtain ⟨hnodup, hrest⟩ := ih h
      refine ⟨List.nodup_cons.2 ⟨fun hmem => ?_, hnodup⟩,
        List.forall_mem_cons.2 ⟨hnew, fun other hother hseen => ?_⟩⟩
      · obtain ⟨other, hother, hid⟩ := List.mem_map.1 hmem
        exact hrest other hother (hid ▸ List.mem_cons_self)
      · exact hrest other hother (List.mem_cons_of_mem _ hseen)
    · cases h

theorem checkUnknownDeps_eq_ok {known : List String} {jobs : List JobSpec}
    (h : forM jobs (checkDeps known) = .ok ()) :
    ∀ job ∈ jobs, ∀ dep ∈ job.dependsOn, dep ∈ known := by
  induction jobs with
  | nil => simp
  | cons job jobs ih =>
    rw [List.forM_cons] at h
    cases hjob : checkDeps known job with
    | error error => rw [hjob] at h; cases h
    | ok _ =>
      rw [hjob] at h
      refine List.forall_mem_cons.2 ⟨fun dep hdep => ?_, ih h⟩
      unfold checkDeps at hjob
      split at hjob
      · next hnone => simpa using List.find?_eq_none.1 hnone dep hdep
      · cases hjob

/-! ### The dependents -/

theorem lookup_insert {α : Type} (map : List (String × α)) (default : α) (id k : String)
    (value : α) : lookup (Keyed.insert Prod.fst map (id, value)) default k =
      if id = k then value else lookup map default k := by
  unfold lookup
  rw [Keyed.get?_insert]
  split <;> rfl

theorem lookup_pushDependents (id x : String) (deps : List String)
    (map : List (String × List String)) :
    lookup (deps.foldl (pushDependent id) map) [] x =
      lookup map [] x ++ List.replicate (deps.count x) id := by
  induction deps generalizing map with
  | nil => simp
  | cons dep deps ih =>
    rw [List.foldl_cons, ih, pushDependent, lookup_insert, List.count_cons]
    by_cases hdep : dep = x
    · subst hdep
      simp [List.replicate_succ]
    · simp [hdep]

theorem lookup_addDependents (x : String) (jobs : List JobSpec)
    (map : List (String × List String)) :
    lookup (jobs.foldl (fun map job => job.dependsOn.foldl (pushDependent job.id) map) map) [] x =
      lookup map [] x ++ jobs.flatMap fun job => List.replicate (job.dependsOn.count x) job.id := by
  induction jobs generalizing map with
  | nil => simp
  | cons job jobs ih =>
    rw [List.foldl_cons, ih, lookup_pushDependents, List.flatMap_cons, List.append_assoc]

/-- Who depends on `x`, once for each time it names `x`. -/
theorem lookup_dependents (spec : WorkflowSpec) (x : String) :
    lookup (dependents spec) [] x =
      spec.jobs.flatMap fun job => List.replicate (job.dependsOn.count x) job.id := by
  have hnil : ∀ jobs : List JobSpec,
      lookup (jobs.map fun job => (job.id, ([] : List String))) [] x = [] := by
    intro jobs
    induction jobs with
    | nil => rfl
    | cons job jobs ih =>
      unfold lookup at ih ⊢
      rw [List.map_cons, Keyed.get?_cons]
      split
      · rfl
      · exact ih
  rw [dependents, lookup_addDependents, hnil, List.nil_append]

theorem mem_ids_of_dependents {spec : WorkflowSpec} {x id : String}
    (h : id ∈ lookup (dependents spec) [] x) : id ∈ spec.ids := by
  rw [lookup_dependents] at h
  obtain ⟨job, hjob, hid⟩ := List.mem_flatMap.1 h
  rw [List.eq_of_mem_replicate hid]
  exact List.mem_map_of_mem hjob

theorem count_dependents {spec : WorkflowSpec} (hids : spec.ids.Nodup) {job : JobSpec}
    (hjob : job ∈ spec.jobs) (x : String) :
    (lookup (dependents spec) [] x).count job.id = job.dependsOn.count x := by
  rw [lookup_dependents]
  unfold WorkflowSpec.ids at hids
  generalize spec.jobs = jobs at hids hjob
  induction jobs with
  | nil => cases hjob
  | cons j jobs ih =>
    rw [List.map_cons, List.nodup_cons] at hids
    rw [List.flatMap_cons, List.count_append, List.count_replicate]
    rcases List.mem_cons.1 hjob with rfl | hmem
    · have hrest : (jobs.flatMap fun j =>
          List.replicate (j.dependsOn.count x) j.id).count job.id = 0 := by
        refine List.count_eq_zero.2 fun hcount => ?_
        obtain ⟨j, hj, hid⟩ := List.mem_flatMap.1 hcount
        exact hids.1 (List.eq_of_mem_replicate hid ▸ List.mem_map_of_mem hj)
      simp [hrest]
    · have hne : j.id ≠ job.id := fun heq => hids.1 (heq ▸ List.mem_map_of_mem hmem)
      simp [hne, ih hids.2 hmem]

theorem depsOf_eq {spec : WorkflowSpec} (hids : spec.ids.Nodup) {job : JobSpec}
    (hjob : job ∈ spec.jobs) : spec.depsOf job.id = job.dependsOn := by
  rw [WorkflowSpec.depsOf, Keyed.get?_of_mem hids hjob]
  rfl

/-! ### The loop -/

/-- What holds before the next job is taken from the queue: a job's degree counts its dependencies
that are not in the order yet, the queue holds the jobs of degree 0 that are not, and the order is
topological. -/
structure KahnInv (spec : WorkflowSpec) (state : TopoState) : Prop where
  nodup : (state.order ++ state.queue).Nodup
  known : ∀ id ∈ state.order ++ state.queue, id ∈ spec.ids
  degree : ∀ job ∈ spec.jobs, lookup state.inDegree 0 job.id =
    (job.dependsOn.filter fun dep => dep ∉ state.order).length
  zero : ∀ job ∈ spec.jobs, lookup state.inDegree 0 job.id = 0 ↔
    job.id ∈ state.order ++ state.queue
  topological : Topological spec.depsOf state.order

/-- What holds while the dependents of the job taken last are gone through; `relaxed` are done, and
`before` is the order without that job. -/
structure RelaxInv (spec : WorkflowSpec) (before relaxed : List String) (state : TopoState) :
    Prop where
  nodup : (state.order ++ state.queue).Nodup
  known : ∀ id ∈ state.order ++ state.queue, id ∈ spec.ids
  degree : ∀ job ∈ spec.jobs, lookup state.inDegree 0 job.id + relaxed.count job.id =
    (job.dependsOn.filter fun dep => dep ∉ before).length
  zero : ∀ job ∈ spec.jobs, lookup state.inDegree 0 job.id = 0 ↔
    job.id ∈ state.order ++ state.queue

variable {spec : WorkflowSpec} {before relaxed : List String} {state state' : TopoState}

/-- A dependent that is gone through has a degree, which goes down by one. -/
theorem relax_eq_ok {dependent : String} (h : relax state dependent = .ok state') :
    ∃ degree, Keyed.get? Prod.fst state.inDegree dependent = some (dependent, degree + 1) ∧
      state' = { state with
        inDegree := Keyed.modify Prod.fst state.inDegree dependent fun _ => (dependent, degree)
        queue := if degree = 0 then state.queue ++ [dependent] else state.queue } := by
  unfold relax at h
  split at h
  · cases h
  next degree hdegree =>
  have hentry : Keyed.get? Prod.fst state.inDegree dependent = some (dependent, degree + 1) := by
    unfold lookup at hdegree
    cases hget : Keyed.get? Prod.fst state.inDegree dependent with
    | none => rw [hget] at hdegree; cases hdegree
    | some entry =>
      rw [hget] at hdegree
      exact congrArg some (Prod.ext (Keyed.key_of_get? hget) hdegree)
  refine ⟨degree, hentry, ?_⟩
  rw [← Except.ok.inj h]
  simp [Keyed.insert, hentry]

theorem relax_order {dependent : String} (h : relax state dependent = .ok state') :
    state'.order = state.order := by
  obtain ⟨degree, -, rfl⟩ := relax_eq_ok h
  rfl

/-- No job's degree moves in the iteration order of the map. -/
theorem relax_keys {dependent : String} (h : relax state dependent = .ok state') :
    state'.inDegree.map Prod.fst = state.inDegree.map Prod.fst := by
  obtain ⟨degree, -, rfl⟩ := relax_eq_ok h
  exact Keyed.map_key_modify fun _ _ => rfl

theorem RelaxInv.relax {dependent : String} (hinv : RelaxInv spec before relaxed state)
    (hdep : dependent ∈ spec.ids) (h : Dag.relax state dependent = .ok state') :
    RelaxInv spec before (relaxed ++ [dependent]) state' := by
  unfold Dag.relax at h
  split at h
  · cases h
  next degree hdegree =>
  obtain rfl := Except.ok.inj h
  -- the dependent still waited, so it is neither in the order nor in the queue
  have hfresh : dependent ∉ state.order ++ state.queue := by
    obtain ⟨job, hjob, rfl⟩ := List.mem_map.1 hdep
    rw [← hinv.zero job hjob, hdegree]
    exact Nat.succ_ne_zero _
  refine ⟨?_, ?_, fun job hjob => ?_, fun job hjob => ?_⟩
  · dsimp only
    split
    · rw [← List.append_assoc]
      exact List.nodup_append.2 ⟨hinv.nodup, List.nodup_singleton _, fun a ha b hb hab =>
        hfresh (List.mem_singleton.1 hb ▸ hab ▸ ha)⟩
    · exact hinv.nodup
  · intro id hid
    dsimp only at hid
    split at hid
    · rw [← List.append_assoc] at hid
      rcases List.mem_append.1 hid with hid | hid
      · exact hinv.known id hid
      · rw [List.mem_singleton.1 hid]; exact hdep
    · exact hinv.known id hid
  · have hold := hinv.degree job hjob
    rw [lookup_insert, List.count_append, List.count_singleton]
    by_cases hid : dependent = job.id
    · subst hid
      simp only [if_true, beq_self_eq_true]
      omega
    · simp only [hid, if_false, beq_iff_eq]
      omega
  · have hold := hinv.zero job hjob
    rw [lookup_insert]
    by_cases hid : dependent = job.id
    · subst hid
      simp only [if_true]
      by_cases hzero : degree = 0
      · simp [hzero]
      · simpa [hzero] using hfresh
    · rw [if_neg hid, hold]
      dsimp only
      split
      · simp [Ne.symm hid]
      · exact Iff.rfl

theorem foldlM_relax_order {dependents : List String}
    (h : dependents.foldlM relax state = .ok state') : state'.order = state.order :=
  Exec.foldlM_invariant (P := fun mid => mid.order = state.order)
    (fun _ _ _ _ horder hstep => (relax_order hstep).trans horder) h rfl

theorem foldlM_relax_keys {dependents : List String}
    (h : dependents.foldlM relax state = .ok state') :
    state'.inDegree.map Prod.fst = state.inDegree.map Prod.fst :=
  Exec.foldlM_invariant (P := fun mid => mid.inDegree.map Prod.fst = state.inDegree.map Prod.fst)
    (fun _ _ _ _ hkeys hstep => (relax_keys hstep).trans hkeys) h rfl

theorem RelaxInv.foldlM {dependents : List String} (hinv : RelaxInv spec before relaxed state)
    (hdeps : ∀ id ∈ dependents, id ∈ spec.ids)
    (h : dependents.foldlM Dag.relax state = .ok state') :
    RelaxInv spec before (relaxed ++ dependents) state' := by
  induction dependents generalizing state relaxed with
  | nil =>
    rw [List.foldlM_nil, Exec.pure_eq_ok] at h
    rwa [List.append_nil, ← h]
  | cons dependent dependents ih =>
    rw [List.foldlM_cons, Exec.bind_eq_ok] at h
    obtain ⟨mid, hmid, hrest⟩ := h
    obtain ⟨hdep, hdeps⟩ := List.forall_mem_cons.1 hdeps
    have hnext := ih (hinv.relax hdep hmid) hdeps hrest
    rwa [List.append_assoc, List.singleton_append] at hnext

/-- Of the dependencies that wait for `x` or for others, those on `x` are the ones that go. -/
theorem length_filter_notMem_append (deps : List String) {order : List String} {x : String}
    (hx : x ∉ order) :
    (deps.filter fun dep => dep ∉ order ++ [x]).length + deps.count x =
      (deps.filter fun dep => dep ∉ order).length := by
  induction deps with
  | nil => rfl
  | cons dep deps ih =>
    by_cases hdep : dep = x
    · subst hdep
      simp only [List.filter_cons, List.count_cons, List.mem_append, List.mem_singleton, or_true,
        not_true_eq_false, decide_false, hx, not_false_eq_true, decide_true, if_true,
        beq_self_eq_true, List.length_cons] at ih ⊢
      simp only [Bool.false_eq_true, if_false]
      omega
    · by_cases hmem : dep ∈ order
      · simpa [hdep, hmem, List.count_cons] using ih
      · simp only [List.filter_cons, List.count_cons, List.mem_append, List.mem_singleton, hdep,
          hmem, or_self, not_false_eq_true, decide_true, if_true, beq_iff_eq, if_false,
          List.length_cons, Nat.add_zero] at ih ⊢
        omega

theorem KahnInv.fresh {jobId : String} {queue : List String} (hinv : KahnInv spec state)
    (hqueue : state.queue = jobId :: queue) : jobId ∉ state.order := fun hin =>
  (List.nodup_append.1 hinv.nodup).2.2 jobId hin jobId (by simp [hqueue]) rfl

/-- A job is taken from the queue; none of its dependents are done yet. -/
theorem KahnInv.relaxInv {jobId : String} {queue : List String} (hinv : KahnInv spec state)
    (hqueue : state.queue = jobId :: queue) : RelaxInv spec state.order []
      { state with queue := queue, order := state.order ++ [jobId] } := by
  have happend : (state.order ++ [jobId]) ++ queue = state.order ++ state.queue := by
    rw [hqueue, List.append_assoc, List.singleton_append]
  refine ⟨happend ▸ hinv.nodup, happend ▸ hinv.known, fun job hjob => hinv.degree job hjob, ?_⟩
  dsimp only
  rw [happend]
  exact hinv.zero

/-- One round of the loop. -/
theorem KahnInv.round {jobId : String} {queue : List String} (hids : spec.ids.Nodup)
    (hinv : KahnInv spec state) (hqueue : state.queue = jobId :: queue)
    (h : (lookup (dependents spec) [] jobId).foldlM relax
      { state with queue := queue, order := state.order ++ [jobId] } = .ok state') :
    KahnInv spec state' := by
  have hend := (hinv.relaxInv hqueue).foldlM (fun id => mem_ids_of_dependents) h
  have horder : state'.order = state.order ++ [jobId] := foldlM_relax_order h
  have hmem : jobId ∈ state.order ++ state.queue := by simp [hqueue]
  refine ⟨hend.nodup, hend.known, fun job hjob => ?_, hend.zero, ?_⟩
  · have hdegree := hend.degree job hjob
    rw [List.nil_append, count_dependents hids hjob,
      ← length_filter_notMem_append job.dependsOn (hinv.fresh hqueue), ← horder] at hdegree
    omega
  · rw [horder]
    refine .snoc hinv.topological fun dep hdep => ?_
    obtain ⟨job, hjob, rfl⟩ := List.mem_map.1 (hinv.known jobId hmem)
    rw [depsOf_eq hids hjob] at hdep
    -- it was in the queue, so nothing it depends on is missing from the order
    have hzero := (hinv.zero job hjob).2 hmem
    rw [hinv.degree job hjob, List.length_eq_zero_iff, List.filter_eq_nil_iff] at hzero
    simpa using hzero dep hdep

theorem KahnInv.drain {fuel : ℕ} (hids : spec.ids.Nodup) (hinv : KahnInv spec state)
    (h : Dag.drain spec fuel state = .ok state') : KahnInv spec state' := by
  induction fuel generalizing state with
  | zero => exact Except.ok.inj h ▸ hinv
  | succ fuel ih =>
    rw [Dag.drain] at h
    split at h
    · exact Except.ok.inj h ▸ hinv
    · next jobId queue hqueue =>
      obtain ⟨mid, hmid, hrest⟩ := Exec.bind_eq_ok.1 h
      exact ih (hinv.round hids hqueue hmid) hrest

theorem kahnInv_start {iter : List JobSpec} (hiter : iter.Perm spec.jobs)
    (hids : spec.ids.Nodup) : KahnInv spec (topoStart iter) := by
  have hnodup : (iter.map JobSpec.id).Nodup := (hiter.map _).nodup_iff.2 hids
  have hdegree : ∀ job ∈ spec.jobs,
      lookup (topoStart iter).inDegree 0 job.id = job.dependsOn.length := by
    intro job hjob
    have hmem : (job.id, job.dependsOn.length) ∈ (topoStart iter).inDegree :=
      List.mem_map.2 ⟨job, hiter.mem_iff.2 hjob, rfl⟩
    have hkeys : ((topoStart iter).inDegree.map Prod.fst).Nodup := by
      simpa [topoStart, Function.comp_def] using hnodup
    rw [lookup, Keyed.get?_of_mem hkeys hmem]
    rfl
  refine ⟨?_, ?_, fun job hjob => ?_, fun job hjob => ?_, .nil⟩
  · exact hnodup.sublist (List.Sublist.map _ List.filter_sublist)
  · intro id hid
    obtain ⟨job, hjob, rfl⟩ := List.mem_map.1 hid
    exact List.mem_map_of_mem (hiter.mem_iff.1 (List.mem_filter.1 hjob).1)
  · rw [hdegree job hjob]
    simp [topoStart]
  · rw [hdegree job hjob]
    simp only [topoStart, List.nil_append, List.mem_map, List.mem_filter, decide_eq_true_eq]
    constructor
    · exact fun hzero => ⟨job, ⟨hiter.mem_iff.2 hjob, hzero⟩, rfl⟩
    · rintro ⟨other, ⟨hother, hzero⟩, hid⟩
      rwa [← List.inj_on_of_nodup_map hnodup hother (hiter.mem_iff.2 hjob) hid]

/-! ### The loop ends -/

/-- Going through a dependent lets its degree down by one, so the measure does not grow. -/
theorem relax_measure {dependent : String} (hkeys : (state.inDegree.map Prod.fst).Nodup)
    (h : relax state dependent = .ok state') : state'.measure ≤ state.measure := by
  obtain ⟨degree, hentry, rfl⟩ := relax_eq_ok h
  obtain ⟨rest, hsum, hsum'⟩ := Keyed.sum_modify (f := fun _ => (dependent, degree)) Prod.snd
    hkeys hentry
  simp only [TopoState.measure, hsum, hsum']
  split
  · rw [List.length_append, List.length_singleton]; omega
  · omega

theorem foldlM_relax_measure {dependents : List String}
    (hkeys : (state.inDegree.map Prod.fst).Nodup)
    (h : dependents.foldlM relax state = .ok state') : state'.measure ≤ state.measure := by
  induction dependents generalizing state with
  | nil =>
    rw [List.foldlM_nil, Exec.pure_eq_ok] at h
    rw [h]
  | cons dependent dependents ih =>
    rw [List.foldlM_cons, Exec.bind_eq_ok] at h
    obtain ⟨mid, hmid, hrest⟩ := h
    exact (ih (relax_keys hmid ▸ hkeys) hrest).trans (relax_measure hkeys hmid)

theorem drain_keys {fuel : ℕ} (h : drain spec fuel state = .ok state') :
    state'.inDegree.map Prod.fst = state.inDegree.map Prod.fst := by
  induction fuel generalizing state with
  | zero => rw [← Except.ok.inj h]
  | succ fuel ih =>
    rw [drain] at h
    split at h
    · rw [← Except.ok.inj h]
    · obtain ⟨mid, hmid, hrest⟩ := Exec.bind_eq_ok.1 h
      have hkeys := foldlM_relax_keys hmid
      exact (ih hrest).trans hkeys

/-- The rounds `drain` is given are enough: it stops because the queue is empty. -/
theorem drain_queue {fuel : ℕ} (hkeys : (state.inDegree.map Prod.fst).Nodup)
    (hfuel : state.measure ≤ fuel) (h : drain spec fuel state = .ok state') :
    state'.queue = [] := by
  induction fuel generalizing state with
  | zero =>
    obtain rfl := Except.ok.inj h
    rw [TopoState.measure] at hfuel
    exact List.length_eq_zero_iff.1 (by omega)
  | succ fuel ih =>
    rw [drain] at h
    split at h
    · next hnil => exact Except.ok.inj h ▸ hnil
    · next jobId queue hqueue =>
      obtain ⟨mid, hmid, hrest⟩ := Exec.bind_eq_ok.1 h
      have hle := foldlM_relax_measure (by exact hkeys) hmid
      refine ih (foldlM_relax_keys hmid ▸ hkeys) (hle.trans ?_) hrest
      simp only [TopoState.measure, hqueue, List.length_cons] at hfuel ⊢
      omega

/-! ### What is used of an accepted workflow -/

theorem KahnInv.order_subperm (hinv : KahnInv spec state) : state.order.Subperm spec.ids :=
  (List.nodup_append.1 hinv.nodup).1.subperm fun id hid =>
    hinv.known id (List.mem_append_left _ hid)

/-- An order as long as the workflow is all of its ids. -/
theorem KahnInv.order_perm (hinv : KahnInv spec state)
    (hlen : state.order.length = spec.jobs.length) : state.order.Perm spec.ids := by
  refine hinv.order_subperm.perm_of_length_le ?_
  rw [WorkflowSpec.ids, List.length_map, hlen]

/-- **An accepted workflow is acyclic**: its jobs can be listed with every job after its
dependencies. -/
theorem exists_topological (h : Accepts spec) :
    spec.ids.Nodup ∧ (∀ job ∈ spec.jobs, ∀ dep ∈ job.dependsOn, dep ∈ spec.ids) ∧
      ∃ order : List String, order.Perm spec.ids ∧ Topological spec.depsOf order := by
  obtain ⟨iter, hiter, hval⟩ := h
  unfold validate at hval
  split at hval
  · cases hval
  split at hval
  · cases hval
  next hdup =>
  split at hval
  · cases hval
  next hdeps =>
  have hids : spec.ids.Nodup := (checkDuplicateIdsFrom_eq_ok hdup).1
  simp only [topoSort, Exec.bind_eq_ok] at hval
  obtain ⟨result, ⟨state, hdrain, hresult⟩, hval⟩ := hval
  have hinv := (kahnInv_start hiter hids).drain hids hdrain
  split at hresult
  · rw [← Exec.pure_eq_ok.1 hresult] at hval
    cases hval
  · next hlen =>
    exact ⟨hids, checkUnknownDeps_eq_ok hdeps, state.order, hinv.order_perm (not_ne_iff.1 hlen),
      hinv.topological⟩

end Dag

end Roster
