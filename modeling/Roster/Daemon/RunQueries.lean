import Roster.Store
import Roster.Workflow.Status
import Mathlib.Data.List.Sort
import Mathlib.Data.Prod.Lex
import Mathlib.Data.String.Basic

/-!
# The run queries

`list_runs` goes through the rows of all runs in one pass and starts a new group whenever the run's
id changes, so it depends on the rows of a run coming together; `get_run` asks for one run's rows.
The database promises what rows come (`Listing`, `SelectsRun`) and nothing about the order of a
run's jobs.

`queries_agree` : `list_runs` has every run once, as `get_run` has it.
-/

namespace Roster

/-- A row of `runs` joined with one of the run's jobs, if it has any. -/
structure JoinedRow where
  runId : String
  workflowName : String
  createdAt : String
  jobState : Option String
  deriving DecidableEq

/-- A `RunRow` of the queries. -/
structure ListedRun where
  runId : String
  workflowName : String
  status : String
  createdAt : String
  deriving DecidableEq, Repr

/-- `RunAccumulator`. -/
structure RunAccumulator where
  runId : String
  workflowName : String
  createdAt : String
  jobStates : List JobState

namespace RunAccumulator

/-- `push_state`; a state that cannot be read counts as Failed. -/
def pushState (acc : RunAccumulator) (state : String) : RunAccumulator :=
  { acc with jobStates := acc.jobStates ++ [(JobState.fromStr state).getD .failed] }

/-- `into_run_row`. -/
def intoRunRow (acc : RunAccumulator) : ListedRun where
  runId := acc.runId
  workflowName := acc.workflowName
  status := (deriveRunState acc.jobStates).asStr
  createdAt := acc.createdAt

/-- The accumulator a row's run starts with. -/
def start (row : JoinedRow) : RunAccumulator :=
  ⟨row.runId, row.workflowName, row.createdAt, []⟩

/-- The state of the row's job, if there is one. -/
def pushRow (acc : RunAccumulator) (row : JoinedRow) : RunAccumulator :=
  match row.jobState with
  | some state => acc.pushState state
  | none => acc

end RunAccumulator

/-- The runs that are finished, and the one in progress. -/
abbrev ListState := List ListedRun × Option RunAccumulator

/-- One row of `list_runs`. -/
def listStep (s : ListState) (row : JoinedRow) : ListState :=
  match s.2 with
  | none => (s.1, some ((RunAccumulator.start row).pushRow row))
  | some acc =>
    if acc.runId ≠ row.runId then
      (s.1 ++ [acc.intoRunRow], some ((RunAccumulator.start row).pushRow row))
    else (s.1, some (acc.pushRow row))

/-- The runs of a state in which no more rows come. -/
def flushRuns (s : ListState) : List ListedRun :=
  match s.2 with
  | none => s.1
  | some finished => s.1 ++ [finished.intoRunRow]

/-- `RunStore::list_runs` on the rows of its query. -/
def listRuns (rows : List JoinedRow) : List ListedRun := flushRuns (rows.foldl listStep ([], none))

/-- `RunStore::get_run` on the rows of its query. -/
def getRun (runId : String) (rows : List JoinedRow) : Option ListedRun :=
  match rows with
  | [] => none
  | row :: _ => some
    (rows.foldl RunAccumulator.pushRow ⟨runId, row.workflowName, row.createdAt, []⟩).intoRunRow

/-! ### What the database promises -/

namespace RunStore

-- `createdText` is the text a run's creation time is stored as
variable (store : RunStore) (createdText : RunRow → String)

/-- The rows of a run, one for each of its jobs, or one without a job. -/
def joinRows (run : RunRow) : List JoinedRow :=
  if (store.jobsOf run.runId).isEmpty then
    [⟨run.runId, run.workflowName, createdText run, none⟩]
  else (store.jobsOf run.runId).map fun job =>
    ⟨run.runId, run.workflowName, createdText run, some job.state⟩

/-- `runs r LEFT JOIN jobs j on j.run_id = r.run_id`. -/
def leftJoin : List JoinedRow := store.runs.flatMap (store.joinRows createdText)

/-- `ORDER BY r.created_at DESC, r.run_id`. -/
def orderKey (row : JoinedRow) : Lex (Stringᵒᵈ × String) :=
  toLex (OrderDual.toDual row.createdAt, row.runId)

/-- The rows of the query of `list_runs`. -/
structure Listing (rows : List JoinedRow) : Prop where
  perm : rows.Perm (store.leftJoin createdText)
  sorted : rows.Pairwise fun a b => orderKey a ≤ orderKey b

/-- The rows of the query of `get_run`, in any order. -/
def SelectsRun (runId : String) (rows : List JoinedRow) : Prop :=
  rows.Perm ((store.leftJoin createdText).filter fun row => row.runId = runId)

end RunStore

/-- The job states of these rows. -/
def statesOf (rows : List JoinedRow) : List JobState :=
  (rows.filterMap JoinedRow.jobState).map fun state => (JobState.fromStr state).getD .failed

/-! ### Groups of rows -/

section Groups

variable {rows : List JoinedRow} {row : JoinedRow} {acc : RunAccumulator}

theorem statesOf_cons (row : JoinedRow) (rows : List JoinedRow) :
    statesOf (row :: rows) = statesOf [row] ++ statesOf rows := by
  rw [statesOf, statesOf, statesOf, ← List.map_append, ← List.filterMap_append]
  rfl

theorem pushRow_eq (acc : RunAccumulator) (row : JoinedRow) :
    acc.pushRow row = { acc with jobStates := acc.jobStates ++ statesOf [row] } := by
  unfold RunAccumulator.pushRow
  cases h : row.jobState <;> simp [statesOf, h, RunAccumulator.pushState]

theorem foldl_pushRow (acc : RunAccumulator) (rows : List JoinedRow) :
    rows.foldl RunAccumulator.pushRow acc =
      { acc with jobStates := acc.jobStates ++ statesOf rows } := by
  induction rows generalizing acc with
  | nil => simp [statesOf]
  | cons row rows ih =>
    rw [List.foldl_cons, ih, pushRow_eq, statesOf_cons row rows, List.append_assoc]

theorem getRun_cons (runId : String) (row : JoinedRow) (rows : List JoinedRow) :
    getRun runId (row :: rows) = some {
      runId := runId, workflowName := row.workflowName, createdAt := row.createdAt,
      status := (deriveRunState (statesOf (row :: rows))).asStr } := by
  rw [getRun, foldl_pushRow]
  rfl

/-- The rest of a run's rows only add their states. -/
theorem foldl_group (result : List ListedRun) (acc : RunAccumulator)
    (h : ∀ row ∈ rows, row.runId = acc.runId) : rows.foldl listStep (result, some acc) =
      (result, some (rows.foldl RunAccumulator.pushRow acc)) := by
  induction rows generalizing acc with
  | nil => rfl
  | cons row rows ih =>
    obtain ⟨hrow, hrows⟩ := List.forall_mem_cons.1 h
    have hkept : (acc.pushRow row).runId = acc.runId := by rw [pushRow_eq]
    have hstep : listStep (result, some acc) row = (result, some (acc.pushRow row)) := by
      simp [listStep, hrow]
    rw [List.foldl_cons, hstep, ih _ (by rwa [hkept])]
    rfl

/-- A group of rows is one run. -/
structure IsGroup (runId : String) (rows : List JoinedRow) : Prop where
  ne_nil : rows ≠ []
  same : ∀ row ∈ rows, row.runId = runId

/-- The group of another run finishes the one in progress. -/
theorem IsGroup.foldl {runId : String} (h : IsGroup runId rows) (s : ListState)
    (hother : ∀ acc ∈ s.2, acc.runId ≠ runId) :
    ∃ acc, rows.foldl listStep s = (flushRuns s, some acc) ∧ acc.runId = runId ∧
      getRun runId rows = some acc.intoRunRow := by
  cases rows with
  | nil => exact absurd rfl h.ne_nil
  | cons row rows =>
    obtain ⟨hrow, hrows⟩ := List.forall_mem_cons.1 h.same
    have hstep : listStep s row = (flushRuns s, some ((RunAccumulator.start row).pushRow row)) := by
      obtain ⟨result, current⟩ := s
      cases current with
      | none => rfl
      | some acc => simp [listStep, flushRuns, hrow, hother acc rfl]
    have hid : ((RunAccumulator.start row).pushRow row).runId = runId := by
      rw [pushRow_eq]
      exact hrow
    rw [List.foldl_cons, hstep, foldl_group _ _ (by rwa [hid])]
    refine ⟨_, rfl, ?_, ?_⟩
    · rw [foldl_pushRow]
      exact hid
    · rw [getRun, List.foldl_cons, RunAccumulator.start, hrow]

/-- One pass over the groups of different runs has each of them as `get_run` has it. -/
theorem flushRuns_groups {ids : List String} {group : String → List JoinedRow}
    (hgroup : ∀ id ∈ ids, IsGroup id (group id)) (hnodup : ids.Nodup) (s : ListState)
    (hother : ∀ acc ∈ s.2, acc.runId ∉ ids) :
    ∃ listed, flushRuns ((ids.flatMap group).foldl listStep s) = flushRuns s ++ listed ∧
      listed.map ListedRun.runId = ids ∧
      ∀ run ∈ listed, getRun run.runId (group run.runId) = some run := by
  induction ids generalizing s with
  | nil => exact ⟨[], by simp, rfl, by simp⟩
  | cons id ids ih =>
    obtain ⟨hhead, htail⟩ := List.forall_mem_cons.1 hgroup
    obtain ⟨hnew, hrest⟩ := List.nodup_cons.1 hnodup
    obtain ⟨acc, hfold, hid, hget⟩ := hhead.foldl s fun acc hacc heq =>
      hother acc hacc (heq ▸ List.mem_cons_self)
    obtain ⟨listed, hlisted, hids, hall⟩ := ih htail hrest (flushRuns s, some acc)
      fun acc' hacc' => by
        obtain rfl := Option.mem_some.1 hacc'
        rwa [hid]
    have hsame : acc.intoRunRow.runId = id := hid
    refine ⟨acc.intoRunRow :: listed, ?_, ?_, ?_⟩
    · rw [List.flatMap_cons, List.foldl_append, hfold, hlisted, flushRuns]
      simp
    · rw [List.map_cons, hids, hsame]
    · refine List.forall_mem_cons.2 ⟨?_, hall⟩
      rw [hsame, hget]

end Groups

/-! ### Sorted rows -/

section Sorted

variable {α K : Type} [LinearOrder K] {f : α → K} {l : List α}

/-- What is sorted begins with its least elements. -/
theorem eq_filter_append_filter {k : K} (hl : l.Pairwise fun a b => f a ≤ f b)
    (hle : ∀ a ∈ l, k ≤ f a) :
    l = l.filter (fun a => f a = k) ++ l.filter fun a => f a ≠ k := by
  induction l with
  | nil => rfl
  | cons a l ih =>
    obtain ⟨ha, hsorted⟩ := List.pairwise_cons.1 hl
    obtain ⟨hk, hrest⟩ := List.forall_mem_cons.1 hle
    by_cases heq : f a = k
    · have hl' := ih hsorted hrest
      rw [List.filter_cons_of_pos (by simpa using heq),
        List.filter_cons_of_neg (by simpa using heq), List.cons_append, ← hl']
    · have hall : ∀ b ∈ a :: l, f b ≠ k := by
        refine List.forall_mem_cons.2 ⟨heq, fun b hmem hb => heq (le_antisymm ?_ hk)⟩
        rw [← hb]
        exact ha b hmem
      rw [List.filter_eq_nil_iff.2 (by simpa using hall), List.nil_append,
        List.filter_eq_self.2 (by simpa using hall)]

/-- A sorted list is put together from the groups of its keys. -/
theorem eq_flatMap_filter {ks : List K} (hks : ks.Pairwise (· < ·))
    (hl : l.Pairwise fun a b => f a ≤ f b) (hmem : ∀ a ∈ l, f a ∈ ks) :
    l = ks.flatMap fun k => l.filter fun a => f a = k := by
  induction ks generalizing l with
  | nil =>
    cases l with
    | nil => rfl
    | cons a l => exact absurd (hmem a List.mem_cons_self) (List.not_mem_nil)
  | cons k ks ih =>
    obtain ⟨hk, hsorted⟩ := List.pairwise_cons.1 hks
    have hle : ∀ a ∈ l, k ≤ f a := by
      intro a ha
      rcases List.mem_cons.1 (hmem a ha) with heq | hlater
      · exact heq.ge
      · exact (hk _ hlater).le
    have hrest := ih (l := l.filter fun a => f a ≠ k) hsorted (hl.filter _) fun a ha => by
      obtain ⟨ha, hne⟩ := List.mem_filter.1 ha
      exact (List.mem_cons.1 (hmem a ha)).resolve_left (by simpa using hne)
    have hsame : ∀ k' ∈ ks, (l.filter fun a => f a ≠ k).filter (fun a => f a = k') =
        l.filter fun a => f a = k' := by
      intro k' hk'
      rw [List.filter_filter]
      refine List.filter_congr fun a _ => ?_
      have hne : k ≠ k' := (hk k' hk').ne
      grind
    rw [List.flatMap_cons, ← List.flatMap_congr hsame, ← hrest]
    exact eq_filter_append_filter hl hle

end Sorted

/-! ### The rows of a run -/

namespace RunStore

variable {store : RunStore} {createdText : RunRow → String} {run : RunRow} {row : JoinedRow}
  {rows : List JoinedRow} {runId : String}

/-- The key a run's rows are sorted by. -/
def runKey (createdText : RunRow → String) (run : RunRow) : Lex (Stringᵒᵈ × String) :=
  toLex (OrderDual.toDual (createdText run), run.runId)

/-- The states of a run's jobs, where one that cannot be read counts as Failed. -/
def jobStates (store : RunStore) (runId : String) : List JobState :=
  (store.jobsOf runId).map fun job => (JobState.fromStr job.state).getD .failed

theorem joinRows_ne_nil : store.joinRows createdText run ≠ [] := by
  unfold joinRows
  split
  · exact List.cons_ne_nil _ _
  · next h => simpa using h

theorem mem_joinRows (h : row ∈ store.joinRows createdText run) :
    row.runId = run.runId ∧ row.workflowName = run.workflowName ∧
      row.createdAt = createdText run := by
  unfold joinRows at h
  split at h
  · obtain rfl := List.mem_singleton.1 h
    exact ⟨rfl, rfl, rfl⟩
  · obtain ⟨job, -, rfl⟩ := List.mem_map.1 h
    exact ⟨rfl, rfl, rfl⟩

theorem statesOf_joinRows :
    statesOf (store.joinRows createdText run) = store.jobStates run.runId := by
  unfold joinRows jobStates statesOf
  split
  · next h => simp [List.isEmpty_iff.1 h]
  · simp [List.filterMap_map, Function.comp_def]

/-- Of the joined rows a run's own ones have its id. -/
theorem filter_leftJoin (hruns : (store.runs.map RunRow.runId).Nodup) (hmem : run ∈ store.runs) :
    (store.leftJoin createdText).filter (fun row => row.runId = run.runId) =
      store.joinRows createdText run := by
  have hnone : ∀ other ∈ store.runs, other ≠ run →
      (store.joinRows createdText other).filter (fun row => row.runId = run.runId) = [] := by
    intro other hother hne
    rw [List.filter_eq_nil_iff]
    intro row hrow hid
    refine hne (List.inj_on_of_nodup_map hruns hother hmem ?_)
    rw [← (mem_joinRows hrow).1]
    simpa using hid
  have hself : (store.joinRows createdText run).filter (fun row => row.runId = run.runId) =
      store.joinRows createdText run :=
    List.filter_eq_self.2 fun row hrow => by simp [(mem_joinRows hrow).1]
  obtain ⟨before, after, hsplit⟩ := List.append_of_mem hmem
  have hdistinct : store.runs.Nodup := hruns.of_map
  rw [hsplit] at hdistinct hnone
  obtain ⟨-, hafter, hdisjoint⟩ := List.nodup_append.1 hdistinct
  have hflat : ∀ l : List RunRow, (∀ other ∈ l, other ∈ before ++ run :: after ∧ other ≠ run) →
      (l.flatMap (store.joinRows createdText)).filter (fun row => row.runId = run.runId) = [] := by
    intro l hl
    rw [List.filter_flatMap, List.flatMap_eq_nil_iff]
    exact fun other hother => hnone other (hl other hother).1 (hl other hother).2
  rw [leftJoin, hsplit, List.flatMap_append, List.flatMap_cons, List.filter_append,
    List.filter_append, hself, hflat before, hflat after, List.nil_append, List.append_nil]
  · refine fun other hother => ⟨by simp [hother], fun heq => ?_⟩
    exact (List.nodup_cons.1 hafter).1 (heq ▸ hother)
  · refine fun other hother => ⟨by simp [hother], fun heq => ?_⟩
    exact hdisjoint other hother run List.mem_cons_self heq

/-- `get_run` has the run's name and creation time, and the status of its jobs in any order. -/
theorem SelectsRun.getRun_eq (h : store.SelectsRun createdText run.runId rows)
    (hruns : (store.runs.map RunRow.runId).Nodup) (hmem : run ∈ store.runs) :
    getRun run.runId rows = some {
      runId := run.runId, workflowName := run.workflowName, createdAt := createdText run,
      status := (deriveRunState (store.jobStates run.runId)).asStr } := by
  unfold SelectsRun at h
  rw [filter_leftJoin hruns hmem] at h
  cases rows with
  | nil => exact absurd h.nil_eq.symm joinRows_ne_nil
  | cons row rows =>
    obtain ⟨-, hname, hcreated⟩ := mem_joinRows (h.subset List.mem_cons_self)
    have hstates : (statesOf (row :: rows)).Perm (store.jobStates run.runId) := by
      rw [← @statesOf_joinRows store createdText run]
      exact (h.filterMap _).map _
    rw [getRun_cons, hname, hcreated, deriveRunState_perm hstates]

/-- The rows of `list_runs` are the groups of the runs, one after the other. -/
theorem Listing.eq_flatMap (h : store.Listing createdText rows)
    (hruns : (store.runs.map RunRow.runId).Nodup) :
    ∃ ids : List String, ids.Perm (store.runs.map RunRow.runId) ∧
      rows = ids.flatMap fun id => rows.filter fun row => row.runId = id := by
  have hperm := List.mergeSort_perm store.runs
    fun a b => runKey createdText a ≤ runKey createdText b
  set runs := store.runs.mergeSort fun a b => runKey createdText a ≤ runKey createdText b with hdef
  have hsorted : runs.Pairwise fun a b => runKey createdText a ≤ runKey createdText b := by
    have hmerge := @List.pairwise_mergeSort _
      (fun a b => decide (runKey createdText a ≤ runKey createdText b))
      (fun a b c => by simpa using le_trans) (fun a b => by simpa using le_total _ _) store.runs
    simpa using hmerge
  have hnodup : (runs.map RunRow.runId).Nodup := (hperm.map _).nodup_iff.2 hruns
  have hstrict : (runs.map (runKey createdText)).Pairwise (· < ·) := by
    rw [List.pairwise_map]
    refine (hsorted.and (List.pairwise_map.1 hnodup)).imp fun {a b} hab => ?_
    refine lt_of_le_of_ne hab.1 fun heq => hab.2 ?_
    exact (Prod.mk.inj (toLex.injective heq)).2
  -- a row and its run have the same key
  have hkey : ∀ row ∈ rows, ∃ run ∈ runs, row.runId = run.runId ∧
      orderKey row = runKey createdText run := by
    intro row hrow
    obtain ⟨run, hrun, hjoin⟩ := List.mem_flatMap.1 (h.perm.subset hrow)
    obtain ⟨hid, -, hcreated⟩ := mem_joinRows hjoin
    exact ⟨run, hperm.mem_iff.2 hrun, hid, by rw [orderKey, runKey, hid, hcreated]⟩
  have hgroups := eq_flatMap_filter hstrict h.sorted fun row hrow => by
    obtain ⟨run, hrun, -, heq⟩ := hkey row hrow
    exact List.mem_map.2 ⟨run, hrun, heq.symm⟩
  refine ⟨runs.map RunRow.runId, hperm.map _, ?_⟩
  rw [List.flatMap_map] at hgroups ⊢
  conv_lhs => rw [hgroups]
  refine List.flatMap_congr fun run hrun => List.filter_congr fun row hrow => ?_
  obtain ⟨own, hown, hid, heq⟩ := hkey row hrow
  have hiff : orderKey row = runKey createdText run ↔ row.runId = run.runId := by
    constructor
    · exact fun hsame => (Prod.mk.inj (toLex.injective hsame)).2
    · intro hsame
      rw [heq, List.inj_on_of_nodup_map hnodup hown hrun (hid.symm.trans hsame)]
  simp only [hiff]

/-- **The two queries agree**: `list_runs` has every run once, under its name and creation time and
with the status of its jobs in any order, and that is what `get_run` has for it; it has nothing for
any other id. -/
theorem queries_agree (store : RunStore) (createdText : RunRow → String)
    (hruns : (store.runs.map RunRow.runId).Nodup) (rows : List JoinedRow)
    (hrows : store.Listing createdText rows) :
    ((listRuns rows).map ListedRun.runId).Perm (store.runs.map RunRow.runId) ∧
      (∀ listed ∈ listRuns rows, ∃ run ∈ store.runs, listed.runId = run.runId ∧
        listed.workflowName = run.workflowName ∧ listed.createdAt = createdText run ∧
        (∀ states, states.Perm (store.jobStates run.runId) →
          listed.status = (deriveRunState states).asStr) ∧
        ∀ selected, store.SelectsRun createdText run.runId selected →
          getRun run.runId selected = some listed) ∧
      ∀ id ∉ store.runs.map RunRow.runId, ∀ selected,
        store.SelectsRun createdText id selected → getRun id selected = none := by
  obtain ⟨ids, hperm, hflat⟩ := hrows.eq_flatMap hruns
  have hnodup : ids.Nodup := hperm.nodup_iff.2 hruns
  -- the rows of the listing that are of one run are a possible answer to the query for that run
  have hselects : ∀ id, store.SelectsRun createdText id (rows.filter fun row => row.runId = id) :=
    fun id => hrows.perm.filter _
  have hgroup : ∀ id ∈ ids, IsGroup id (rows.filter fun row => row.runId = id) := by
    intro id hid
    obtain ⟨run, hrun, rfl⟩ := List.mem_map.1 (hperm.mem_iff.1 hid)
    refine ⟨fun hnil => ?_, fun row hrow => by simpa using (List.mem_filter.1 hrow).2⟩
    have hget := (hselects run.runId).getRun_eq hruns hrun
    rw [hnil] at hget
    cases hget
  obtain ⟨listed, hlisted, hids, hall⟩ := flushRuns_groups hgroup hnodup ([], none) (by simp)
  have hlist : listRuns rows = listed := by
    rw [listRuns, hflat, hlisted]
    rfl
  rw [hlist, hids]
  refine ⟨hperm, fun run hmem => ?_, fun id hid selected hselected => ?_⟩
  · have hid : run.runId ∈ store.runs.map RunRow.runId :=
      hperm.mem_iff.1 (hids ▸ List.mem_map_of_mem hmem)
    obtain ⟨row, hrow, hsame⟩ := List.mem_map.1 hid
    have hget := hall run hmem
    rw [← hsame, (hselects row.runId).getRun_eq hruns hrow, Option.some.injEq] at hget
    refine ⟨row, hrow, hsame.symm, ?_, ?_, fun states hstates => ?_, fun selected hselected => ?_⟩
    · rw [← hget]
    · rw [← hget]
    · rw [← hget, deriveRunState_perm hstates]
    · rw [hselected.getRun_eq hruns hrow, hget]
  -- a run that is not in the table has no rows, whatever the query selects
  · have hnone : (store.leftJoin createdText).filter (fun row => row.runId = id) = [] := by
      rw [List.filter_eq_nil_iff]
      intro row hrow heq
      obtain ⟨run, hrun, hjoin⟩ := List.mem_flatMap.1 hrow
      refine hid (List.mem_map.2 ⟨run, hrun, ?_⟩)
      rw [← (mem_joinRows hjoin).1]
      simpa using heq
    unfold SelectsRun at hselected
    rw [hnone] at hselected
    rw [hselected.eq_nil]
    rfl

/-- Two runs of one moment, the first with a job whose state cannot be read, the second without
jobs. -/
def twoRuns : RunStore where
  runs := [⟨"b", "train", 0, none⟩, ⟨"a", "eval", 0, none⟩]
  jobs := [⟨"b", "x", "Succeeded", none, none, none, none, none, none, none⟩,
    ⟨"b", "y", "Paused", none, none, none, none, none, none, none⟩]

/-- The rows that SQLite gives for them. -/
def twoRunsRows : List JoinedRow :=
  [⟨"a", "eval", "", none⟩, ⟨"b", "train", "", some "Succeeded"⟩, ⟨"b", "train", "", some "Paused"⟩]

theorem twoRuns_listing : twoRuns.Listing (fun _ => "") twoRunsRows := by
  refine ⟨by decide, ?_⟩
  unfold twoRunsRows orderKey
  simp only [List.pairwise_cons, List.mem_cons, List.not_mem_nil, or_false, forall_eq_or_imp,
    forall_eq, Prod.Lex.toLex_le_toLex, lt_irrefl, true_and, false_or, List.Pairwise.nil, and_true,
    false_imp_iff, implies_true]
  decide

theorem queries_agree_twoRuns :
    ((listRuns twoRunsRows).map ListedRun.runId).Perm (twoRuns.runs.map RunRow.runId) ∧
      (∀ listed ∈ listRuns twoRunsRows, ∃ run ∈ twoRuns.runs, listed.runId = run.runId ∧
        listed.workflowName = run.workflowName ∧ listed.createdAt = "" ∧
        (∀ states, states.Perm (twoRuns.jobStates run.runId) →
          listed.status = (deriveRunState states).asStr) ∧
        ∀ selected, twoRuns.SelectsRun (fun _ => "") run.runId selected →
          getRun run.runId selected = some listed) ∧
      ∀ id ∉ twoRuns.runs.map RunRow.runId, ∀ selected,
        twoRuns.SelectsRun (fun _ => "") id selected → getRun id selected = none :=
  queries_agree twoRuns (fun _ => "") (by decide) twoRunsRows twoRuns_listing

end RunStore

end Roster
