import Roster.Daemon.Drain
import Mathlib.Data.Prod.Lex

/-!
# The controller can always finish

From every state the controller gets into since a first start, with whatever cards kept back, tests
under way, nodes that turned jobs down and a tick half done, some continuation ends every job
(`can_finish`): no order of events leads to a state in which a job is left over for good.

The continuation is the one of an obliging world, which `SchedulerState.obliging` gives phase by
phase.  It brings the scheduler to the end of its tick (`Phase.rank`).  Then one check of the cards
after the other tests those that are owed a test, until a check hands all of them out
(`WellKept.reaches_open`), and then it ticks, each tick ending a job.
-/

namespace Roster

/-! ### Flags -/

section Flags

variable {pools pools' : List ResourcePool}

/-- No node keeps a card back. -/
def AllOpen (pools : List ResourcePool) : Prop := ∀ pool ∈ pools, true ∉ pool.blocked

theorem AllOpen.set (h : AllOpen pools) {node : ℕ} {pool pool' : ResourcePool}
    (hpool : pools[node]? = some pool) (hflags : pool'.blocked = pool.blocked) :
    AllOpen (pools.set node pool') := by
  intro other hother
  rcases List.mem_or_eq_of_mem_set hother with hmem | rfl
  · exact h other hmem
  · rw [hflags]
    exact h pool (List.mem_of_getElem? hpool)

theorem AllOpen.releaseOn (h : AllOpen pools) {member : ℕ × Allocation}
    (hok : releaseOn pools member = .ok pools') : AllOpen pools' := by
  obtain ⟨pool, pool', hpool, hrelease, rfl⟩ := Exec.update_eq_ok.1 hok
  exact h.set hpool (ResourcePool.release_eq_ok.1 hrelease).2.1.blocked

theorem AllOpen.releaseExecutions (h : AllOpen pools) {executions : List Execution}
    (hok : releaseExecutions pools executions = .ok pools') : AllOpen pools' :=
  Exec.foldlM_invariant (fun _ _ _ _ hmid hone => AllOpen.releaseOn hmid hone) hok h

theorem AllOpen.admitted (h : AllOpen pools) {online : List Bool}
    {entries : List (String × JobInstance)} {tasks : List AdmitTask}
    (hadmitted : Admitted online entries pools tasks pools') : AllOpen pools' := by
  induction hadmitted with
  | nil => exact h
  | wait _ ih => exact ih h
  | place _ _ _ _ hplaced _ ih =>
    obtain ⟨pool, pool', hpool, hreserve, rfl⟩ := hplaced.reserved
    obtain ⟨hnone, -⟩ | ⟨_, _, -, hreserved, -⟩ := ResourcePool.tryReserve_eq_ok hreserve
    · cases hnone
    · exact ih (h.set hpool hreserved.alike.blocked)

theorem AllOpen.startQualification (h : AllOpen pools) {checks checks' : GpuChecks}
    {card : ToQualify} {launched : Except ExecutorError JobHandle} {now : Instant}
    (hok : startQualification pools checks card launched now = .ok (pools', checks')) :
    AllOpen pools' := by
  cases launched with
  | ok handle =>
    cases hok
    exact h
  | error error =>
    simp only [Roster.startQualification, Exec.bind_eq_ok, Exec.pure_eq_ok, Prod.mk.injEq] at hok
    obtain ⟨mid, hmid, rfl, -⟩ := hok
    exact h.releaseOn hmid

theorem AllOpen.applyLaunch {cfg : Config} {now : DateTime} {acc acc' : Applied}
    {outcome : LaunchOutcome} (h : AllOpen acc.daemon.pools)
    (hok : applyLaunch cfg now acc outcome = .ok acc') : AllOpen acc'.daemon.pools := by
  cases applyLaunch_eq_ok hok with
  | returned _ hrelease => exact h.releaseExecutions hrelease
  | started _ _ _ _ => exact h
  | turnedDown _ _ _ hrelease _ => exact h.releaseExecutions hrelease
  | failed _ _ _ _ hrelease => exact h.releaseExecutions hrelease

theorem AllOpen.applyPoll {now : DateTime} {acc acc' : Applied} {entry : PollEntry}
    (h : AllOpen acc.daemon.pools) (hok : applyPoll now acc entry = .ok acc') :
    AllOpen acc'.daemon.pools := by
  cases applyPoll_eq_ok hok with
  | same _ => exact h
  | failed _ _ _ hrelease => exact h.releaseExecutions hrelease
  | exited _ _ hrelease => exact h.releaseExecutions hrelease

end Flags

/-- The phases of `check_gpus`. -/
def Phase.checks : Phase → Bool
  | .finishing _ _ | .blocking | .qualifying _ => true
  | _ => false

/-- Only a check keeps cards back. -/
theorem CardsOpen.step {cfg : Config} {s s' : SchedulerState} {label : Label} (h : CardsOpen s)
    (hstep : Step cfg s label s') (hno : s.phase.checks = false) (hno' : s'.phase.checks = false) :
    CardsOpen s' := by
  obtain ⟨hflags, huntested⟩ := h
  cases hstep with
  | flushed hok =>
    obtain ⟨_, _, rfl⟩ := flushTransition_eq_ok hok
    exact ⟨hflags, huntested⟩
  | admitQueued _ hok => exact ⟨AllOpen.admitted hflags (admitQueued_eq_ok hok), huntested⟩
  | launchesApplied hok =>
    refine ⟨Exec.foldlM_invariant (P := fun mid : Applied => AllOpen mid.daemon.pools)
      (fun _ _ _ _ hmid hone => hmid.applyLaunch hone) hok hflags, huntested⟩
  | pollsApplied hok =>
    refine ⟨Exec.foldlM_invariant (P := fun mid : Applied => AllOpen mid.daemon.pools)
      (fun _ _ _ _ hmid hone => hmid.applyPoll hone) hok hflags, huntested⟩
  | checkGpus => cases hno'
  | qualificationOver _ => cases hno
  | qualificationKept _ => cases hno
  | qualificationsFinished _ => cases hno
  | gpusBlocked _ _ => cases hno
  | qualificationLaunched _ => cases hno
  | gpusChecked => cases hno
  | _ => exact ⟨hflags, huntested⟩

/-! ### An obliging world -/

/-- A reading with nothing against the card, which was tested by now. -/
def healthyReading (utc : DateTime) (gpu : GpuInfo) : GpuHealth :=
  { index := gpu.index, processVramMb := some 0, testedAt := some utc }

/-- A node that is up and has nothing against any of its cards. -/
def healthyView (utc : DateTime) (pool : ResourcePool) : NodeView :=
  ⟨true, some (pool.total.gpus.map (healthyReading utc)), fun _ => true⟩

/-- The handle of a job that was started on that node. -/
def Config.started (cfg : Config) (node : ℕ) (runId jobId : String) : JobHandle :=
  if (cfg.nodes[node]?.bind Node.ssh).isSome then .remote 1 runId jobId
  else ⟨1, .process none none⟩

/-- What an obliging world leaves open: its clocks, and the ids of the runs that tests get. -/
structure Obliging where
  utc : DateTime
  now : Instant
  testRun : ToQualify → String

/-- What an obliging world does next: nodes are up and their cards in order, every launch succeeds,
and who is polled has ended well. -/
def SchedulerState.obliging (cfg : Config) (world : Obliging) (s : SchedulerState) : Label :=
  match s.phase with
  | .idle => .tick
  | .finishing (_ :: _) _ => .qualificationPolled (.ok (.exited 0)) (.ok ()) world.now
  | .finishing [] _ => .qualificationsFinished
  | .blocking => .gpusBlocked (s.daemon.pools.map (healthyView world.utc)) world.utc world.now
  | .qualifying (card :: _) =>
    let job := qualifyJob card.gpu card.retest
    .qualificationLaunched (.ok (cfg.started card.node (world.testRun card) job.jobId)) world.now
  | .qualifying [] => .gpusChecked
  | .flushing (_ :: _) _ => .flushed true world.utc.toNat
  | .flushing [] _ => .flushDone
  | .cascading => .cascade world.utc
  | .admitting => .admitQueued (List.replicate cfg.nodes.length true)
  | .launching (task :: _) _ =>
    .launched (task.placement.map fun member =>
      .ok (cfg.started member.1 task.runId task.jobInstance.jobId))
  | .launching [] _ => .launchesApplied world.utc
  | .collecting => .collect
  | .polling (_ :: _) _ => .polled (.ok (.exited 0)) none
  | .polling [] _ => .pollsApplied world.utc

/-- The steps of an obliging world; a check may begin instead of a tick. -/
def Obliges (cfg : Config) (world : Obliging) (s : SchedulerState) (label : Label) : Prop :=
  label = .checkGpus ∨ label = s.obliging cfg world

/-- How far it is to the end of the check or tick: the sections to go, and the answers that the
present one waits for. -/
def Phase.rank : Phase → ℕ ×ₗ ℕ
  | .finishing todo _ => toLex (12, todo.length)
  | .blocking => toLex (11, 0)
  | .qualifying todo => toLex (10, todo.length)
  | .flushing toWrite .cascading => toLex (9, toWrite.length)
  | .cascading => toLex (8, 0)
  | .flushing toWrite .admitting => toLex (7, toWrite.length)
  | .admitting => toLex (6, 0)
  | .launching tasks _ => toLex (5, tasks.length)
  | .flushing toWrite .collecting => toLex (4, toWrite.length)
  | .collecting => toLex (3, 0)
  | .polling todo _ => toLex (2, todo.length)
  | .flushing toWrite .idle => toLex (1, toWrite.length)
  | .idle => toLex (0, 0)

section Obliging

variable {cfg : Config} {world : Obliging} {inventories : List SystemResources}
  {s s' : SchedulerState} {label : Label}

/-- What can be performed, succeeds. -/
theorem AccountsInv.goes (hinv : AccountsInv cfg inventories s)
    (h : s.perform cfg label ≠ none) : ∃ s', s.perform cfg label = some (.ok s') := by
  cases hresult : s.perform cfg label with
  | none => exact absurd hresult h
  | some result =>
    cases result with
    | ok s' => exact ⟨s', rfl⟩
    | error panic => exact absurd hresult (hinv.not_panics label panic)

variable (world) in
/-- An obliging world can always go on. -/
theorem AccountsInv.obliged (hinv : AccountsInv cfg inventories s) :
    ∃ s', (scheduler cfg).step s (s.obliging cfg world) s' := by
  refine hinv.goes ?_
  have hpools := hinv.length_pools
  obtain ⟨daemon, checks, phase⟩ := s
  rcases phase with _ | ⟨_ | _, _⟩ | _ | ⟨_ | _⟩ | ⟨_ | _, _⟩ | _ | _ | ⟨_ | _, _⟩ | _ | ⟨_ | _, _⟩
  all_goals simp_all [SchedulerState.obliging, SchedulerState.perform, SchedulerState.advance,
    SchedulerState.after, SchedulerState.next, Qualification.isOver]

/-- It comes nearer to the end of the check or tick. -/
theorem Step.obliged_rank (h : Step cfg s (s.obliging cfg world) s') (hbusy : s.phase ≠ .idle) :
    s'.phase.rank < s.phase.rank := by
  obtain ⟨daemon, checks, phase⟩ := s
  rcases phase with _ | ⟨_ | _, _⟩ | _ | ⟨_ | _⟩ | ⟨_ | _, _⟩ | _ | _ | ⟨_ | _, _⟩ | _ | ⟨_ | _, _⟩
  case idle => exact absurd rfl hbusy
  case finishing.cons =>
    cases h with
    | qualificationOver _ => simp [Phase.rank, Prod.Lex.toLex_lt_toLex]
    | qualificationKept hover => cases hover
  case flushing.nil next =>
    cases h
    cases next <;> simp [AfterFlush.phase, Phase.rank, Prod.Lex.toLex_lt_toLex]
  case flushing.cons next _ _ =>
    cases h
    cases next <;> simp [Phase.rank, Prod.Lex.toLex_lt_toLex]
  all_goals
    cases h
    simp [Phase.rank, Prod.Lex.toLex_lt_toLex]

/-- From a tick it does not get into a check. -/
theorem Step.obliged_ticks (h : Step cfg s (s.obliging cfg world) s')
    (hticks : s.phase.checks = false) : s'.phase.checks = false := by
  obtain ⟨daemon, checks, phase⟩ := s
  rcases phase with _ | ⟨_ | _, _⟩ | _ | ⟨_ | _⟩ | ⟨_ | _, _⟩ | _ | _ | ⟨_ | _, _⟩ | _ | ⟨_ | _, _⟩
  case flushing.nil next =>
    cases h
    cases next <;> rfl
  case finishing.cons => cases hticks
  all_goals
    cases h
    first | rfl | cases hticks

/-- It holds nothing up. -/
theorem CardsOpen.cooperates (h : CardsOpen s) : Cooperates s (s.obliging cfg world) := by
  obtain ⟨daemon, checks, phase⟩ := s
  rcases phase with _ | ⟨_ | _, _⟩ | _ | ⟨_ | _⟩ | ⟨_ | _, _⟩ | _ | _ | ⟨_ | _, _⟩ | _ | ⟨_ | _, _⟩
  case admitting => exact ⟨fun up hup => List.eq_of_mem_replicate hup, h⟩
  case launching.cons =>
    intro result hresult
    obtain ⟨_, -, rfl⟩ := List.mem_map.1 hresult
    rfl
  case polling.cons => exact rfl
  all_goals trivial

/-! ### A check hands out all cards -/

section Healthy

variable {utc : DateTime} {now : Instant} {node : ℕ} {view : NodeView}
  {lastQualified : List ((ℕ × UInt32) × Instant)} {requalify : List (ℕ × UInt32)}
  {gpus : List GpuInfo} {gpu : GpuInfo} {check check' : CardCheck}

theorem readingOf_healthy (h : gpu ∈ gpus) :
    readingOf (gpus.map (healthyReading utc)) gpu = some (healthyReading utc gpu) := by
  have hsome : (readingOf (gpus.map (healthyReading utc)) gpu).isSome := by
    rw [readingOf, List.find?_isSome]
    exact ⟨healthyReading utc gpu, List.mem_map_of_mem h, decide_eq_true rfl⟩
  obtain ⟨health, hfound⟩ := Option.isSome_iff_exists.1 hsome
  obtain ⟨other, -, rfl⟩ := List.mem_map.1 (List.mem_of_find?_eq_some hfound)
  have hindex := List.find?_some hfound
  simp only [healthyReading] at hindex
  rw [hfound, healthyReading, healthyReading, of_decide_eq_true hindex]

theorem blocked_healthy (utc : DateTime) (gpu : GpuInfo) (unbooked : Bool) :
    (healthyReading utc gpu).blocked unbooked = none := by
  cases unbooked <;> rfl

/-- A card in order is tested only when it is owed a test. -/
theorem mem_of_dueForTest
    (h : dueForTest requalify lastQualified utc now (node, gpu.index) (healthyReading utc gpu) =
      true) : (node, gpu.index) ∈ requalify := by
  have hrecent : ¬ qualifyEvery < utc - utc := by
    rw [Int.sub_self]
    decide
  simp only [dueForTest, healthyReading, Bool.and_eq_true, Bool.or_eq_true, decide_eq_true_eq,
    hrecent, or_false] at h
  exact h.1.1

/-- What is left to test, and what is to be tested now. -/
def CardCheck.owed (check : CardCheck) : ℕ := check.requalify.length + check.toQualify.length

/-- A card in order is handed out; if it is to be tested it is owed no other test. -/
theorem checkCard_healthy (hmem : gpu ∈ gpus)
    (h : checkCard node view (gpus.map (healthyReading utc)) lastQualified utc now check gpu =
      .ok check') :
    check'.pool.blocked = check.pool.blocked.set gpu.index.toNat false ∧
      check'.owed ≤ check.owed := by
  unfold checkCard at h
  rw [readingOf_healthy hmem] at h
  obtain ⟨pool, hblock, h⟩ := Exec.bind_eq_ok.1 h
  obtain ⟨-, free, -, rfl⟩ := blockCard_eq_ok.1 hblock
  rw [Option.bind_some, blocked_healthy] at h
  dsimp only at h
  split_ifs at h with hdue
  · obtain ⟨⟨found, pool'⟩, hreserve, h⟩ := Exec.bind_eq_ok.1 h
    rcases ResourcePool.reserveCard_eq_ok hreserve with ⟨rfl, rfl⟩ | ⟨card, -, rfl, hreserved⟩
    · obtain rfl := Exec.pure_eq_ok.1 h
      exact ⟨rfl, Nat.le_refl _⟩
    · obtain rfl := Exec.pure_eq_ok.1 h
      refine ⟨hreserved.alike.blocked, ?_⟩
      have howed := mem_of_dueForTest (Bool.and_eq_true_iff.1 hdue).1
      have hfewer : (check.requalify.filter fun key => decide (key ≠ (node, gpu.index))).length <
          check.requalify.length :=
        List.length_filter_lt_length_iff_exists.2 ⟨_, howed, by simp⟩
      simp only [CardCheck.owed, List.length_append, List.length_singleton]
      omega
  · obtain rfl := Exec.pure_eq_ok.1 h
    exact ⟨rfl, Nat.le_refl _⟩

/-- The cards that are still kept back were so before, and are none of those looked at. -/
theorem checkCards_healthy {todo : List GpuInfo} (hsub : todo ⊆ gpus)
    (h : todo.foldlM (checkCard node view (gpus.map (healthyReading utc)) lastQualified utc now)
      check = .ok check') :
    check'.owed ≤ check.owed ∧ ∀ i, check'.pool.blocked[i]? = some true →
      check.pool.blocked[i]? = some true ∧ ∀ gpu ∈ todo, gpu.index.toNat ≠ i := by
  induction todo generalizing check with
  | nil =>
    obtain rfl := Exec.pure_eq_ok.1 h
    exact ⟨Nat.le_refl _, fun i hi => ⟨hi, fun _ hmem => absurd hmem List.not_mem_nil⟩⟩
  | cons gpu todo ih =>
    rw [List.foldlM_cons, Exec.bind_eq_ok] at h
    obtain ⟨mid, hmid, hrest⟩ := h
    obtain ⟨hfirst, hsub'⟩ := List.cons_subset.1 hsub
    obtain ⟨howed, hflags⟩ := ih hsub' hrest
    obtain ⟨hset, howed'⟩ := checkCard_healthy hfirst hmid
    refine ⟨howed.trans howed', fun i hi => ?_⟩
    obtain ⟨hflag, hothers⟩ := hflags i hi
    rw [hset, List.getElem?_set] at hflag
    split at hflag
    · split at hflag <;> cases hflag
    · next hne => exact ⟨hflag, List.forall_mem_cons.2 ⟨hne, hothers⟩⟩

theorem checkNode_healthy
    (h : checkNode node (healthyView utc check.pool) lastQualified utc now check = .ok check')
    (hindexed : check.pool.total.Indexed)
    (hlength : check.pool.blocked.length = check.pool.total.gpus.length) :
    true ∉ check'.pool.blocked ∧ check'.owed ≤ check.owed := by
  rcases checkNode_eq_ok h with ⟨hdown | hnone, -⟩ | ⟨reading, -, hreading, hcards⟩
  · cases hdown
  · cases hnone
  obtain rfl := Option.some.inj hreading
  obtain ⟨howed, hflags⟩ := checkCards_healthy (List.Subset.refl _) hcards
  refine ⟨fun hmem => ?_, howed⟩
  obtain ⟨i, hi⟩ := List.mem_iff_getElem?.1 hmem
  obtain ⟨hflag, hothers⟩ := hflags i hi
  have hlt : i < check.pool.total.gpus.length :=
    hlength ▸ (List.getElem?_eq_some_iff.1 hflag).1
  exact hothers _ (List.getElem_mem hlt) (hindexed.index_eq (List.getElem?_eq_getElem hlt))

/-- Node after node, all cards are handed out. -/
theorem checkNodes_healthy {views : List NodeView} {pools pools' : List ResourcePool}
    {requalify' : List (ℕ × UInt32)} {toQualify toQualify' : List ToQualify}
    (hviews : views = (pools.drop node).map (healthyView utc))
    (hpools : ∀ i pool, node ≤ i → pools[i]? = some pool →
      pool.total.Indexed ∧ pool.blocked.length = pool.total.gpus.length)
    (hdone : ∀ i pool, i < node → pools[i]? = some pool → true ∉ pool.blocked)
    (h : checkNodes lastQualified utc now node views (pools, requalify, toQualify) =
      .ok (pools', requalify', toQualify')) :
    AllOpen pools' ∧
      requalify'.length + toQualify'.length ≤ requalify.length + toQualify.length := by
  induction views generalizing node pools requalify toQualify with
  | nil =>
    cases h
    refine ⟨fun pool hpool => ?_, Nat.le_refl _⟩
    have hlength := List.drop_eq_nil_iff.1 (List.map_eq_nil_iff.1 hviews.symm)
    obtain ⟨i, hi⟩ := List.mem_iff_getElem?.1 hpool
    exact hdone i pool ((List.getElem?_eq_some_iff.1 hi).1.trans_le hlength) hi
  | cons view views ih =>
    simp only [checkNodes, Exec.bind_eq_ok, Exec.index_eq_ok] at h
    obtain ⟨pool, hpool, check, hcheck, hrest⟩ := h
    obtain ⟨hlt, hget⟩ := List.getElem?_eq_some_iff.1 hpool
    rw [List.drop_eq_getElem_cons hlt, hget, List.map_cons, List.cons.injEq] at hviews
    obtain ⟨rfl, hviews⟩ := hviews
    obtain ⟨hindexed, hflags⟩ := hpools node pool (Nat.le_refl _) hpool
    let before : CardCheck := ⟨pool, requalify, toQualify⟩
    have hbefore : checkNode node (healthyView utc before.pool) lastQualified utc now before =
        .ok check := hcheck
    obtain ⟨hopen, howed⟩ := checkNode_healthy hbefore hindexed hflags
    have hviews' : views = ((pools.set node check.pool).drop (node + 1)).map (healthyView utc) := by
      rwa [List.drop_set_of_lt (Nat.lt_succ_self node)]
    have hpools' : ∀ i other, node + 1 ≤ i → (pools.set node check.pool)[i]? = some other →
        other.total.Indexed ∧ other.blocked.length = other.total.gpus.length := by
      intro i other hle hother
      rw [List.getElem?_set_ne (by omega)] at hother
      exact hpools i other (by omega) hother
    have hdone' : ∀ i other, i < node + 1 → (pools.set node check.pool)[i]? = some other →
        true ∉ other.blocked := by
      intro i other hbelow hother
      by_cases hi : i = node
      · subst hi
        rw [List.getElem?_set_self hlt] at hother
        exact Option.some.inj hother ▸ hopen
      · rw [List.getElem?_set_ne (Ne.symm hi)] at hother
        exact hdone i other (by omega) hother
    obtain ⟨hall, howed'⟩ := ih hviews' hpools' hdone' hrest
    rw [CardCheck.owed, CardCheck.owed] at howed
    exact ⟨hall, howed'.trans howed⟩

end Healthy

/-- A check under way that began with no test and `n` cards owed one: every test it starts is one of
these, and once it has its readings all cards are handed out. -/
def Clearing (n : ℕ) (s : SchedulerState) : Prop :=
  match s.phase with
  | .finishing _ _ | .blocking => s.checks.qualifying = [] ∧ s.daemon.requalify.length ≤ n
  | .qualifying todo => AllOpen s.daemon.pools ∧
      s.checks.qualifying.length + (s.daemon.requalify.length + todo.length) ≤ n
  | .idle => AllOpen s.daemon.pools ∧ s.checks.qualifying.length + s.daemon.requalify.length ≤ n
  | _ => False

theorem Clearing.step {n : ℕ} (hinv : AccountsInv cfg inventories s) (h : Clearing n s)
    (hstep : Step cfg s (s.obliging cfg world) s') (hbusy : s.phase ≠ .idle) : Clearing n s' := by
  obtain ⟨daemon, checks, phase⟩ := s
  rcases phase with _ | ⟨_ | _, _⟩ | _ | ⟨_ | _⟩ | ⟨_ | _, _⟩ | _ | _ | ⟨_ | _, _⟩ | _ | ⟨_ | _, _⟩
  case idle => exact absurd rfl hbusy
  case finishing.nil =>
    cases hstep
    exact h
  case finishing.cons =>
    cases hstep with
    | qualificationOver _ => exact h
    | qualificationKept hover => cases hover
  case blocking =>
    cases hstep with
    | gpusBlocked _ hok =>
      obtain ⟨huntested, howed⟩ := h
      obtain ⟨pools, requalify, rfl, hcheck⟩ := blockGpus_eq_ok hok
      have hpools : ∀ i pool, 0 ≤ i → daemon.pools[i]? = some pool →
          pool.total.Indexed ∧ pool.blocked.length = pool.total.gpus.length := by
        intro i pool _ hpool
        have hacc := hinv.accounts.accounts i pool hpool
        exact ⟨hacc.indexed, hacc.flags⟩
      obtain ⟨hopen, howed'⟩ := checkNodes_healthy rfl hpools
        (fun i _ hlt _ => absurd hlt (Nat.not_lt_zero i)) hcheck
      refine ⟨hopen, ?_⟩
      dsimp only at huntested howed
      rw [huntested, List.length_nil, Nat.zero_add]
      exact howed'.trans howed
  case qualifying.nil =>
    cases hstep
    exact h
  case qualifying.cons =>
    cases hstep with
    | qualificationLaunched hok =>
      obtain ⟨hopen, howed⟩ := h
      refine ⟨AllOpen.startQualification hopen hok, ?_⟩
      obtain ⟨-, rfl⟩ := Prod.mk.inj (Except.ok.inj hok)
      dsimp only at howed
      simp only [List.length_append, List.length_cons, List.length_nil] at howed ⊢
      omega
  all_goals exact h.elim

/-! ### To the end -/

variable (cfg inventories) in
/-- What holds since the controller started. -/
def WellKept (s : SchedulerState) : Prop := AccountsInv cfg inventories s ∧ WaitsForRoom s

theorem WellKept.step (h : WellKept cfg inventories s) (hstep : Step cfg s label s') :
    WellKept cfg inventories s' :=
  ⟨h.1.step hstep, h.2.step h.1.toJobsInv.keysInv hstep⟩

variable (world) in
theorem WellKept.obliged (h : WellKept cfg inventories s) :
    ∃ s', ((scheduler cfg).guard (Obliges cfg world)).Reach s s' ∧
      Step cfg s (s.obliging cfg world) s' ∧ WellKept cfg inventories s' := by
  obtain ⟨s', hperform⟩ := h.1.obliged world
  have hstep := step_of_perform hperform
  exact ⟨s', LTS.Reach.refl.tail ⟨.inr rfl, hperform⟩, hstep, h.step hstep⟩

variable (world) in
/-- The check or tick under way comes to its end. -/
theorem WellKept.reaches_idle (h : WellKept cfg inventories s) :
    ∃ s', ((scheduler cfg).guard (Obliges cfg world)).Reach s s' ∧ WellKept cfg inventories s' ∧
      s'.phase = .idle :=
  LTS.Reach.descend (fun s => s.phase.rank) (fun s => s.phase = .idle) (fun _ hkept hbusy =>
    have ⟨s', hreach, hstep, hkept'⟩ := hkept.obliged world
    ⟨s', hreach, hkept', hstep.obliged_rank hbusy⟩) h

variable (world) in
/-- A whole check hands out all cards but those it tests, which were owed a test. -/
theorem WellKept.reaches_checked (h : WellKept cfg inventories s) (hidle : s.phase = .idle) :
    ∃ s', ((scheduler cfg).guard (Obliges cfg world)).Reach s s' ∧ WellKept cfg inventories s' ∧
      s'.phase = .idle ∧ AllOpen s'.daemon.pools ∧
      s'.checks.qualifying.length + s'.daemon.requalify.length ≤ s.daemon.requalify.length := by
  obtain ⟨s₁, hfirst⟩ : ∃ s', (scheduler cfg).step s .checkGpus s' := by
    refine h.1.goes ?_
    simp [SchedulerState.perform, SchedulerState.advance, hidle, SchedulerState.next]
  have hstep := step_of_perform hfirst
  have hclearing : Clearing s.daemon.requalify.length s₁ := by
    cases hstep with
    | checkGpus => exact ⟨rfl, Nat.le_refl _⟩
  have hsmaller : ∀ mid, WellKept cfg inventories mid ∧ Clearing s.daemon.requalify.length mid →
      ¬ mid.phase = .idle → ∃ s', ((scheduler cfg).guard (Obliges cfg world)).Reach mid s' ∧
        (WellKept cfg inventories s' ∧ Clearing s.daemon.requalify.length s') ∧
          s'.phase.rank < mid.phase.rank := by
    rintro mid ⟨hkept, hclearing⟩ hbusy
    obtain ⟨s', hreach, hstep, hkept'⟩ := hkept.obliged world
    exact ⟨s', hreach, ⟨hkept', hclearing.step hkept.1 hstep hbusy⟩, hstep.obliged_rank hbusy⟩
  obtain ⟨s', hreach, ⟨hkept', hclearing'⟩, hidle'⟩ := LTS.Reach.descend
    (I := fun mid => WellKept cfg inventories mid ∧ Clearing s.daemon.requalify.length mid)
    (fun mid : SchedulerState => mid.phase.rank) (fun mid => mid.phase = .idle) hsmaller
    ⟨h.step hstep, hclearing⟩
  rw [Clearing, hidle'] at hclearing'
  have hbegins : ((scheduler cfg).guard (Obliges cfg world)).step s .checkGpus s₁ :=
    ⟨.inl rfl, hfirst⟩
  exact ⟨s', (LTS.Reach.refl.tail hbegins).trans hreach, hkept', hidle', hclearing'⟩

variable (world) in
/-- Check after check, fewer cards are owed a test, until a check tests none and hands out all. -/
theorem WellKept.reaches_open (h : WellKept cfg inventories s) (hidle : s.phase = .idle) :
    ∃ s', ((scheduler cfg).guard (Obliges cfg world)).Reach s s' ∧ WellKept cfg inventories s' ∧
      s'.phase = .idle ∧ CardsOpen s' := by
  obtain ⟨s₁, hfirst, hkept₁, hidle₁, hopen₁, -⟩ := h.reaches_checked world hidle
  obtain ⟨s', hreach, ⟨hkept', hidle', hopen⟩, huntested⟩ := LTS.Reach.descend
    (I := fun s : SchedulerState =>
      WellKept cfg inventories s ∧ s.phase = .idle ∧ AllOpen s.daemon.pools)
    (fun s => s.checks.qualifying.length + s.daemon.requalify.length)
    (fun s => s.checks.qualifying = [])
    (fun s ⟨hkept, hidle, _⟩ htested => by
      obtain ⟨s', hreach, hkept', hidle', hopen', howed⟩ := hkept.reaches_checked world hidle
      have hpos := List.length_pos_iff.2 htested
      exact ⟨s', hreach, ⟨hkept', hidle', hopen'⟩, by omega⟩)
    ⟨hkept₁, hidle₁, hopen₁⟩
  exact ⟨s', hfirst.trans hreach, hkept', hidle', hopen, huntested⟩

variable (world) in
/-- With no card kept back, tick after tick ends a job until none is left. -/
theorem WellKept.reaches_end (h : WellKept cfg inventories s) (hopen : CardsOpen s)
    (hticks : s.phase.checks = false) :
    ∃ s', ((scheduler cfg).guard (Obliges cfg world)).Reach s s' ∧ WellKept cfg inventories s' ∧
      unfinished s'.daemon.runs = [] := by
  obtain ⟨s', hreach, ⟨hkept, -⟩, hend⟩ := LTS.Reach.descend
    (I := fun s => WellKept cfg inventories s ∧ CardsOpen s ∧ s.phase.checks = false)
    (fun s => toLex (owed s, s.phase.rank)) (fun s => unfinished s.daemon.runs = [])
    (fun s ⟨hkept, hopen, hticks⟩ hleft => by
      obtain ⟨s', hreach, hstep, hkept'⟩ := hkept.obliged world
      refine ⟨s', hreach, ⟨hkept', hopen.step hstep hticks (hstep.obliged_ticks hticks),
        hstep.obliged_ticks hticks⟩, Prod.Lex.toLex_lt_toLex.2 ?_⟩
      have howed := hstep.owed_le hkept.1 hkept.2 hopen.cooperates
      by_cases hidle : s.phase = .idle
      · left
        have hall : owed s = (unfinished s.daemon.runs).length :=
          owed_of_not (by rw [hidle]; exact id)
        have hpos := List.length_pos_iff.2 hleft
        have htick : (s.obliging cfg world).isTick = true := by
          rw [SchedulerState.obliging, hidle]
          rfl
        rw [htick, if_pos rfl] at howed
        omega
      · rcases (howed.trans (Nat.sub_le _ _)).lt_or_eq with hlt | heq
        · exact .inl hlt
        · exact .inr ⟨heq, hstep.obliged_rank hidle⟩)
    ⟨h, hopen, hticks⟩
  exact ⟨s', hreach, hkept, hend⟩

/-- No job is ever dropped. -/
theorem KeysInv.findJob_stays {cfg : Config} {s s' : SchedulerState} (hinv : KeysInv s)
    (h : (scheduler cfg).Reach s s') {key : JobKey} {job : JobInstance}
    (hjob : findJob s.daemon.runs key = some job) :
    ∃ job', findJob s'.daemon.runs key = some job' := by
  refine (h.invariant (I := fun s' => KeysInv s' ∧ ∃ job', findJob s'.daemon.runs key = some job')
    ⟨hinv, job, hjob⟩ ?_).2
  rintro mid label s' - ⟨hkeys, job', hjob'⟩ hperform
  have hstep := step_of_perform hperform
  obtain ⟨job'', hjob'', -⟩ := hstep.job hkeys hjob'
  exact ⟨hkeys.step hstep, job'', hjob''⟩

end Obliging

/-- **The controller can always finish.**  From every state it gets into after a first start there is
a continuation, in which nodes are up, cards in order and jobs end well, after which every job that
was there has ended. -/
theorem can_finish {cfg : Config} {inventories : List SystemResources}
    (hnodes : inventories.length = cfg.nodes.length)
    (hindexed : ∀ resources ∈ inventories, resources.Indexed) {s : SchedulerState}
    (h : (scheduler cfg).Reach (.init (inventories.map .new)) s) (world : Obliging) :
    ∃ s', ((scheduler cfg).guard (Obliges cfg world)).Reach s s' ∧
      ∀ key job, findJob s.daemon.runs key = some job →
        ∃ job', findJob s'.daemon.runs key = some job' ∧ job'.state.isTerminal = true := by
  have hkept : WellKept cfg inventories s := accounts_and_room hnodes hindexed h
  obtain ⟨s₁, hfirst, hkept₁, hidle₁⟩ := hkept.reaches_idle world
  obtain ⟨s₂, hchecks, hkept₂, hidle₂, hopen⟩ := hkept₁.reaches_open world hidle₁
  obtain ⟨s', hticks, hkept', hend⟩ := hkept₂.reaches_end world hopen (by rw [hidle₂]; rfl)
  have hreach := hfirst.trans (hchecks.trans hticks)
  refine ⟨s', hreach, fun key job hjob => ?_⟩
  obtain ⟨job', hjob'⟩ := hkept.1.toJobsInv.keysInv.findJob_stays hreach.of_guard hjob
  exact ⟨job', hjob', (unfinished_eq_nil hkept'.1.keys).1 hend key job' hjob'⟩

/-- So it can while one job has the card and another waits for it. -/
theorem givesCard_finishes : ∃ s s', (scheduler oneMachine).Reach (.init [.new oneCard]) s ∧
    (findJob s.daemon.runs ("r", "a")).map JobInstance.state = some .running ∧
    ((scheduler oneMachine).guard
      (Obliges oneMachine ⟨4, 0, fun _ => "qualify-0"⟩)).Reach s s' ∧
    ∃ job', findJob s'.daemon.runs ("r", "b") = some job' ∧ job'.state.isTerminal = true := by
  have hrun : (SchedulerState.run oneMachine (.init [.new oneCard]) givesCard).map (fun s =>
      ((findJob s.daemon.runs ("r", "a")).map JobInstance.state,
        (findJob s.daemon.runs ("r", "b")).map JobInstance.state)) =
          some (some .running, some .queued) := by decide
  obtain ⟨s, hs, hjobs⟩ := Option.map_eq_some_iff.1 hrun
  obtain ⟨hfirst, hsecond⟩ := Prod.mk.inj hjobs
  obtain ⟨job, hjob, -⟩ := Option.map_eq_some_iff.1 hsecond
  have hreach := SchedulerState.reach_of_run hs
  have hnodes : [oneCard].length = oneMachine.nodes.length := rfl
  obtain ⟨s', hfinish, hends⟩ := can_finish hnodes (by decide) hreach ⟨4, 0, fun _ => "qualify-0"⟩
  exact ⟨s, s', hreach, hfirst, hfinish, hends ("r", "b") job hjob⟩

end Roster
