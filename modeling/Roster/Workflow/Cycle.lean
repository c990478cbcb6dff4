import Roster.Workflow.Validate
import Mathlib.Data.List.Find

/-!
# The job a cycle is reported with

Kahn's loop leaves over every job that lies on a dependency cycle and every job behind one
(`KahnInv.missing_iff`), and `topo_sort` reports the first of these in the iteration order of the
hash map (`topoSort_cycle_iff`).  The job it names lies on a cycle whatever that order is if and
only if there is no job behind a cycle that is off all cycles (`reported_onCycle_iff`).
-/

namespace Roster

namespace WorkflowSpec

/-- The job depends on itself, through one or more steps. -/
def OnCycle (spec : WorkflowSpec) (id : String) : Prop := Relation.TransGen spec.NamesDep id id

/-- The job lies on a cycle, or depends on a job that does through one or more steps. -/
def Stuck (spec : WorkflowSpec) (id : String) : Prop :=
  ∃ dep, spec.OnCycle dep ∧ Relation.ReflTransGen spec.NamesDep dep id

variable {spec : WorkflowSpec} {id : String}

theorem NamesDep.mem_ids {dep : String} (h : spec.NamesDep dep id) : id ∈ spec.ids := by
  obtain ⟨job, hjob, rfl, -⟩ := h
  exact List.mem_map_of_mem hjob

theorem OnCycle.mem_ids (h : spec.OnCycle id) : id ∈ spec.ids := by
  obtain ⟨dep, -, hdep⟩ := Relation.TransGen.tail'_iff.1 h
  exact hdep.mem_ids

theorem Stuck.mem_ids (h : spec.Stuck id) : id ∈ spec.ids := by
  obtain ⟨dep, hcycle, hbehind⟩ := h
  rcases Relation.ReflTransGen.cases_tail hbehind with rfl | ⟨_, _, hlast⟩
  · exact hcycle.mem_ids
  · exact hlast.mem_ids

end WorkflowSpec

namespace Dag

variable {spec : WorkflowSpec} {state : TopoState} {iter : List JobSpec} {id : String}

/-- The jobs that are left over are those on a cycle and those behind one. -/
theorem KahnInv.missing_iff (hids : spec.ids.Nodup) (hknown : DepsKnown spec)
    (hinv : KahnInv spec state) (hqueue : state.queue = []) (hid : id ∈ spec.ids) :
    id ∉ state.order ↔ spec.Stuck id := by
  constructor
  · exact hinv.exists_cycle hqueue hknown hid
  · rintro ⟨dep, hcycle, hbehind⟩ hin
    rw [WorkflowSpec.OnCycle, ← namesDep_eq hids] at hcycle
    rw [← namesDep_eq hids] at hbehind
    exact hinv.topological.acyclic_before hin hbehind hcycle

/-- The degree of a job is not 0 exactly while the job is left over. -/
theorem KahnInv.degree_pos_iff (hids : spec.ids.Nodup) (hinv : KahnInv spec state)
    (hqueue : state.queue = []) (hiter : iter.Perm spec.jobs)
    (hkeys : state.inDegree.map Prod.fst = iter.map JobSpec.id) {entry : String × ℕ}
    (hentry : entry ∈ state.inDegree) : 0 < entry.2 ↔ entry.1 ∉ state.order := by
  have hnodup : (state.inDegree.map Prod.fst).Nodup :=
    hkeys ▸ (hiter.map JobSpec.id).nodup_iff.2 hids
  have hlookup : lookup state.inDegree 0 entry.1 = entry.2 := by
    rw [lookup, Keyed.get?_of_mem hnodup hentry]
    rfl
  have hid : entry.1 ∈ iter.map JobSpec.id := hkeys ▸ List.mem_map_of_mem hentry
  obtain ⟨job, hjob, hid⟩ := List.mem_map.1 hid
  have hzero := hinv.zero job (hiter.mem_iff.1 hjob)
  rw [hid, hlookup, hqueue, List.append_nil] at hzero
  rw [Nat.pos_iff_ne_zero, Ne, hzero]

/-- What `topo_sort` returns: the first job of the iteration order that is left over, if any. -/
theorem topoSort_eq (hids : spec.ids.Nodup) (hiter : iter.Perm spec.jobs) :
    ∃ state, KahnInv spec state ∧ state.queue = [] ∧
      topoSort spec iter = .ok (match (iter.map JobSpec.id).find? (· ∉ state.order) with
        | some id => .error (.cycle id)
        | none => .ok state.order) := by
  obtain ⟨state, hinv, hqueue, hkeys, -, hsorted⟩ := topoSort_spec hids hiter
  refine ⟨state, hinv, hqueue, ?_⟩
  -- the first degree above 0 is that of the first job that is left over
  have hfind : (state.inDegree.find? fun entry => decide (0 < entry.2)).map Prod.fst =
      (iter.map JobSpec.id).find? (· ∉ state.order) := by
    rw [← hkeys, List.find?_map]
    congr 1
    exact List.find?_congr fun entry hentry =>
      decide_eq_decide.2 (hinv.degree_pos_iff hids hqueue hiter hkeys hentry)
  have hfull : state.order.length = spec.jobs.length ↔
      (iter.map JobSpec.id).find? (· ∉ state.order) = none := by
    rw [hinv.length_iff hids, List.find?_eq_none]
    simp only [(hiter.map JobSpec.id).mem_iff, decide_eq_true_eq, not_not]
    rfl
  rw [hsorted, hfind]
  cases hfirst : (iter.map JobSpec.id).find? (· ∉ state.order) with
  | none => rw [if_neg (not_ne_iff.2 (hfull.2 hfirst))]
  | some id =>
    rw [if_pos fun hlen => by rw [hfull.1 hlen] at hfirst; cases hfirst]
    rfl

/-- The job a cycle is reported with is the first one in the iteration order that lies on a cycle
or behind one. -/
theorem topoSort_cycle_iff (hids : spec.ids.Nodup) (hknown : DepsKnown spec)
    (hiter : iter.Perm spec.jobs) : topoSort spec iter = .ok (.error (.cycle id)) ↔
      spec.Stuck id ∧ ∃ front back, iter.map JobSpec.id = front ++ id :: back ∧
        ∀ other ∈ front, ¬ spec.Stuck other := by
  obtain ⟨state, hinv, hqueue, hsorted⟩ := topoSort_eq hids hiter
  have hmissing : ∀ id ∈ iter.map JobSpec.id, id ∉ state.order ↔ spec.Stuck id := fun id hid =>
    hinv.missing_iff hids hknown hqueue ((hiter.map JobSpec.id).mem_iff.1 hid)
  have hreported : topoSort spec iter = .ok (.error (.cycle id)) ↔
      (iter.map JobSpec.id).find? (· ∉ state.order) = some id := by
    rw [hsorted]
    cases (iter.map JobSpec.id).find? (· ∉ state.order) <;> simp
  rw [hreported, List.find?_eq_some_iff_append]
  constructor
  · rintro ⟨hid, front, back, heq, hfront⟩
    refine ⟨(hmissing id (by simp [heq])).1 (of_decide_eq_true hid), front, back, heq, ?_⟩
    intro other hother
    rw [← hmissing other (by simp [heq, hother])]
    simpa using hfront other hother
  · rintro ⟨hid, front, back, heq, hfront⟩
    refine ⟨decide_eq_true ((hmissing id (by simp [heq])).2 hid), front, back, heq, ?_⟩
    intro other hother
    have hother := (hmissing other (by simp [heq, hother])).not.2 (hfront other hother)
    simpa using hother

/-- **When a reported job lies on a cycle.**  For one iteration order: if and only if the first job
that lies on a cycle or behind one lies on one.  For every iteration order: if and only if no job
behind a cycle is off all cycles. -/
theorem reported_onCycle_iff (spec : WorkflowSpec) (hids : spec.ids.Nodup)
    (hknown : DepsKnown spec) :
    (∀ iter : List JobSpec, iter.Perm spec.jobs →
      ((∀ id, topoSort spec iter = .ok (.error (.cycle id)) → spec.OnCycle id) ↔
        ∀ front id back, iter.map JobSpec.id = front ++ id :: back →
          (∀ other ∈ front, ¬ spec.Stuck other) → spec.Stuck id → spec.OnCycle id)) ∧
      ((∀ iter : List JobSpec, iter.Perm spec.jobs →
        ∀ id, topoSort spec iter = .ok (.error (.cycle id)) → spec.OnCycle id) ↔
          ∀ id, spec.Stuck id → spec.OnCycle id) := by
  refine ⟨fun iter hiter => ⟨fun h front id back heq hfront hid => ?_, fun h id hreported => ?_⟩,
    fun h id hid => ?_, fun h iter hiter id hreported => ?_⟩
  · exact h id ((topoSort_cycle_iff hids hknown hiter).2 ⟨hid, front, back, heq, hfront⟩)
  · obtain ⟨hid, front, back, heq, hfront⟩ := (topoSort_cycle_iff hids hknown hiter).1 hreported
    exact h front id back heq hfront hid
  · -- an iteration order that starts with the job has it reported
    obtain ⟨job, hjob, rfl⟩ := List.mem_map.1 hid.mem_ids
    have hiter : (job :: spec.jobs.erase job).Perm spec.jobs := (List.perm_cons_erase hjob).symm
    exact h _ hiter job.id ((topoSort_cycle_iff hids hknown hiter).2
      ⟨hid, [], _, rfl, fun _ hother => absurd hother List.not_mem_nil⟩)
  · exact h id ((topoSort_cycle_iff hids hknown hiter).1 hreported).1

/-- Two jobs that wait for each other. -/
def cyclic : WorkflowSpec :=
  ⟨"cyclic", [⟨"a", "echo a", ["b"], {}⟩, ⟨"b", "echo b", ["a"], {}⟩]⟩

theorem cyclic_onCycle {id : String} (hid : id ∈ cyclic.ids) : cyclic.OnCycle id := by
  have hab : cyclic.NamesDep "a" "b" := by unfold WorkflowSpec.NamesDep; decide
  have hba : cyclic.NamesDep "b" "a" := by unfold WorkflowSpec.NamesDep; decide
  have hid : id = "a" ∨ id = "b" := by simpa [cyclic, WorkflowSpec.ids] using hid
  rcases hid with rfl | rfl
  · exact .tail (.single hab) hba
  · exact .tail (.single hba) hab

/-- There is no job behind the cycle, so the one that is reported lies on it. -/
theorem cyclic_reported :
    topoSort cyclic cyclic.jobs = .ok (.error (.cycle "a")) ∧ cyclic.OnCycle "a" := by
  have hknown : DepsKnown cyclic := by unfold DepsKnown; decide
  have hreported : topoSort cyclic cyclic.jobs = .ok (.error (.cycle "a")) := by decide
  obtain ⟨-, hall⟩ := reported_onCycle_iff cyclic (by decide) hknown
  exact ⟨hreported,
    hall.2 (fun _ hid => cyclic_onCycle hid.mem_ids) cyclic.jobs (.refl _) "a" hreported⟩

/-- The same two jobs, and one that only waits for them. -/
def waiting : WorkflowSpec :=
  ⟨"waiting", cyclic.jobs ++ [⟨"c", "echo c", ["a"], {}⟩]⟩

/-- The job that waits is reported when it comes first, and nothing depends on it. -/
theorem waiting_reported :
    waiting.ids.Nodup ∧ DepsKnown waiting ∧ waiting.jobs.reverse.Perm waiting.jobs ∧
      topoSort waiting waiting.jobs.reverse = .ok (.error (.cycle "c")) ∧
      ¬ waiting.OnCycle "c" := by
  have hknown : DepsKnown waiting := by unfold DepsKnown; decide
  refine ⟨by decide, hknown, List.reverse_perm _, by decide, fun hcycle => ?_⟩
  obtain ⟨_, ⟨job, hjob, -, hdep⟩, -⟩ := Relation.TransGen.head'_iff.1 hcycle
  revert job
  decide

end Dag

end Roster
