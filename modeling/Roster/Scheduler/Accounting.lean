import Roster.Scheduler.Held
import Roster.Scheduler.Jobs
import Mathlib.Tactic.Abel

/-!
# Resource accounting of the whole scheduler

What is free and what is out add up on every node, in every state of every run.  Section by
section: under the accounts a section does not panic, and it moves allocations between the pools
and what is out (`blockGpus_accounts`, `admit_accounts`, `applyLaunch_accounts`, …).  `AccountsInv`
carries this over the steps, and `accounts_balanced` reads it off between two calls of `check_gpus`
and `tick`.
-/

namespace Roster

variable {inventories : List SystemResources} {pools pools' : List ResourcePool}
  {held rest : Multiset (ℕ × Allocation)}

/-- The accounts do not depend on how what is out is written. -/
theorem PoolsAccounts.congr (h : PoolsAccounts inventories pools held) (heq : held = rest) :
    PoolsAccounts inventories pools rest := heq ▸ h

theorem PoolsAccounts.length_eq (h : PoolsAccounts inventories pools held) :
    pools.length = inventories.length := by rw [← h.totals, List.length_map]

theorem PoolsAccounts.set_self (h : PoolsAccounts inventories pools held) {node : ℕ}
    {pool : ResourcePool} (hpool : pools[node]? = some pool) :
    PoolsAccounts inventories (pools.set node pool) held := by
  obtain ⟨hlt, rfl⟩ := List.getElem?_eq_some_iff.1 hpool
  rwa [List.set_getElem_self]

theorem PoolsAccounts.setFlags {node : ℕ} {pool : ResourcePool} {blocked : List Bool}
    (h : PoolsAccounts inventories (pools.set node pool) held) (hnode : node < pools.length)
    (hlen : blocked.length = pool.blocked.length) :
    PoolsAccounts inventories (pools.set node { pool with blocked := blocked }) held := by
  have hself : (pools.set node pool)[node]? = some pool := by simp [hnode]
  have hset := h.setBlocked hself hlen
  rwa [List.set_set] at hset

theorem releaseExecutions_accounts {executions : List Execution}
    (h : PoolsAccounts inventories pools (executionsHeld executions + rest)) :
    ∃ pools', releaseExecutions pools executions = .ok pools' ∧
      PoolsAccounts inventories pools' rest :=
  PoolsAccounts.releaseAll_ok Execution.member h

/-! ### The GPU check -/

theorem finishQualifications_accounts {ended : List Qualification}
    (h : PoolsAccounts inventories pools (↑(ended.map Qualification.member) + rest)) :
    ∃ pools', finishQualifications pools ended = .ok pools' ∧
      PoolsAccounts inventories pools' rest :=
  PoolsAccounts.releaseAll_ok Qualification.member h

theorem blockCard_accounts {node : ℕ} {pool : ResourcePool}
    (h : PoolsAccounts inventories (pools.set node pool) held) (hnode : node < pools.length)
    (health : Option GpuHealth) {gpu : GpuInfo} (hgpu : gpu ∈ pool.total.gpus) :
    ∃ pool', blockCard pool health gpu = .ok pool' ∧ pool'.total = pool.total ∧
      PoolsAccounts inventories (pools.set node pool') held := by
  have hself : (pools.set node pool)[node]? = some pool := by simp [hnode]
  have hacc := h.accounts node pool hself
  have hslot : gpu.index.toNat < pool.total.gpus.length :=
    (List.getElem?_eq_some_iff.1 (hacc.indexed.getElem?_index hgpu)).1
  refine ⟨_, blockCard_eq_ok.2 ⟨hacc.flags ▸ hslot, _,
    List.getElem?_eq_getElem (hacc.slots ▸ hslot), rfl⟩, rfl, ?_⟩
  exact h.setFlags hnode List.length_set

/-- What the check of a card or of a node leaves behind. -/
def CardCheck.Kept (inventories : List SystemResources) (pools : List ResourcePool) (node : ℕ)
    (held : Multiset (ℕ × Allocation)) (check : CardCheck) : Prop :=
  PoolsAccounts inventories (pools.set node check.pool)
    (↑(check.toQualify.map ToQualify.member) + held)

theorem checkCard_accounts {node : ℕ} (hnode : node < pools.length) (view : NodeView)
    (reading : List GpuHealth) (lastQualified : List ((ℕ × UInt32) × Instant)) (utc : DateTime)
    (now : Instant) {check : CardCheck} (h : check.Kept inventories pools node held)
    {gpu : GpuInfo} (hgpu : gpu ∈ check.pool.total.gpus) :
    ∃ check', checkCard node view reading lastQualified utc now check gpu = .ok check' ∧
      check'.pool.total = check.pool.total ∧ check'.Kept inventories pools node held := by
  obtain ⟨pool, hblock, htotal, hacc⟩ :=
    blockCard_accounts h hnode (readingOf reading gpu) hgpu
  unfold checkCard
  rw [hblock, Exec.ok_bind]
  split
  · exact ⟨_, rfl, htotal, hacc⟩
  split
  · have hself : (pools.set node pool)[node]? = some pool := by simp [hnode]
    obtain ⟨found, pool', hres⟩ := (hacc.accounts node pool hself).reserveCard_ok gpu.index
    rw [hres, Exec.ok_bind]
    rcases ResourcePool.reserveCard_eq_ok hres with ⟨rfl, rfl⟩ | ⟨card, -, rfl, hreserved⟩
    · exact ⟨_, rfl, htotal, hacc⟩
    · refine ⟨_, rfl, hreserved.alike.total.trans htotal, ?_⟩
      have hset := hacc.reserved hself hreserved
      rw [List.set_set] at hset
      refine hset.congr ?_
      simp only [List.map_append, ← Multiset.coe_add, List.map_cons, List.map_nil, ToQualify.member,
        Multiset.coe_singleton, ← Multiset.singleton_add]
      abel
  · exact ⟨_, rfl, htotal, hacc⟩

theorem checkNode_accounts {node : ℕ} (hnode : node < pools.length) (view : NodeView)
    (lastQualified : List ((ℕ × UInt32) × Instant)) (utc : DateTime) (now : Instant)
    {check : CardCheck} (h : check.Kept inventories pools node held) :
    ∃ check', checkNode node view lastQualified utc now check = .ok check' ∧
      check'.Kept inventories pools node held := by
  unfold checkNode
  split
  · exact ⟨_, rfl, PoolsAccounts.setFlags h hnode List.length_replicate⟩
  · next reading _ =>
    -- the cards one after the other, each of which leaves the inventory as it is
    have hstep : ∀ (mid : CardCheck) (gpu : GpuInfo), gpu ∈ check.pool.total.gpus →
        mid.pool.total = check.pool.total ∧ mid.Kept inventories pools node held →
        ∃ mid', checkCard node view reading lastQualified utc now mid gpu = .ok mid' ∧
          mid'.pool.total = check.pool.total ∧ mid'.Kept inventories pools node held := by
      intro mid gpu hgpu ⟨htotal, hkept⟩
      obtain ⟨mid', hcheck, htotal', hkept'⟩ :=
        checkCard_accounts hnode view reading lastQualified utc now hkept (htotal ▸ hgpu)
      exact ⟨mid', hcheck, htotal'.trans htotal, hkept'⟩
    obtain ⟨check', hcards, -, hkept⟩ := Exec.foldlM_total hstep ⟨rfl, h⟩
    exact ⟨check', hcards, hkept⟩

theorem checkNodes_accounts {views : List NodeView}
    (lastQualified : List ((ℕ × UInt32) × Instant)) (utc : DateTime) (now : Instant) {node : ℕ}
    (requalify : List (ℕ × UInt32)) {toQualify : List ToQualify}
    (hlen : node + views.length ≤ pools.length)
    (h : PoolsAccounts inventories pools (↑(toQualify.map ToQualify.member) + held)) :
    ∃ pools' requalify' toQualify',
      checkNodes lastQualified utc now node views (pools, requalify, toQualify) =
        .ok (pools', requalify', toQualify') ∧
      PoolsAccounts inventories pools' (↑(toQualify'.map ToQualify.member) + held) := by
  induction views generalizing node pools requalify toQualify with
  | nil => exact ⟨_, _, _, rfl, h⟩
  | cons view views ih =>
    rw [List.length_cons] at hlen
    have hnode : node < pools.length := by omega
    have hself : pools[node]? = some pools[node] := List.getElem?_eq_getElem hnode
    have hstart : CardCheck.Kept inventories pools node held
        ⟨pools[node], requalify, toQualify⟩ := h.set_self hself
    obtain ⟨check, hcheck, hkept⟩ := checkNode_accounts hnode view lastQualified utc now hstart
    have hlen' : node + 1 + views.length ≤ (pools.set node check.pool).length := by
      rw [List.length_set]; omega
    obtain ⟨pools', requalify', toQualify', hrest, hacc⟩ := ih check.requalify hlen' hkept
    refine ⟨pools', requalify', toQualify', ?_, hacc⟩
    simp only [checkNodes, Exec.index_eq_ok.2 hself, Exec.ok_bind, hcheck]
    exact hrest

theorem blockGpus_accounts {daemon : DaemonState} {checks : GpuChecks} {views : List NodeView}
    {utc : DateTime} {now : Instant} (hlen : views.length ≤ daemon.pools.length)
    (h : PoolsAccounts inventories daemon.pools held) :
    ∃ pools' requalify' toQualify', blockGpus daemon checks views utc now =
        .ok ({ daemon with pools := pools', requalify := requalify' }, toQualify') ∧
      PoolsAccounts inventories pools' (↑(toQualify'.map ToQualify.member) + held) := by
  have hnone : held = ↑(([] : List ToQualify).map ToQualify.member) + held := by simp
  obtain ⟨pools', requalify', toQualify', hcheck, hacc⟩ := checkNodes_accounts
    checks.lastQualified utc now daemon.requalify ((Nat.zero_add _).trans_le hlen) (h.congr hnone)
  refine ⟨pools', requalify', toQualify', ?_, hacc⟩
  rw [blockGpus, hcheck, Exec.ok_bind]
  rfl

theorem startQualification_accounts {checks : GpuChecks} {card : ToQualify}
    (launched : Except ExecutorError JobHandle) (now : Instant)
    (h : PoolsAccounts inventories pools (card.member ::ₘ (checks.held + rest))) :
    ∃ pools' checks', startQualification pools checks card launched now = .ok (pools', checks') ∧
      PoolsAccounts inventories pools' (checks'.held + rest) := by
  unfold startQualification
  cases launched with
  | ok handle =>
    refine ⟨pools, _, rfl, h.congr ?_⟩
    simp only [GpuChecks.held, List.map_append, ← Multiset.coe_add, List.map_cons, List.map_nil,
      Qualification.member, ToQualify.member, Multiset.coe_singleton, ← Multiset.singleton_add]
    abel
  | error error =>
    obtain ⟨pools', hrel⟩ := h.releaseOn_ok
    have hacc := h.releasedOn hrel
    let checks' : GpuChecks := { checks with
      lastQualified :=
        Keyed.insert Prod.fst checks.lastQualified ((card.node, card.gpu.index), now) }
    refine ⟨pools', checks', ?_, hacc⟩
    dsimp only
    rw [hrel]
    rfl

/-! ### Placing jobs -/

theorem Admitted.accounts {online : List Bool} {entries : List (String × JobInstance)}
    {tasks : List AdmitTask} (h : Admitted online entries pools tasks pools')
    (hacc : PoolsAccounts inventories pools held) :
    PoolsAccounts inventories pools' (tasksHeld tasks + held) := by
  induction h generalizing held with
  | nil => exact hacc.congr (by simp [tasksHeld])
  | wait _ ih => exact ih hacc
  | place _ _ _ _ hplaced _ ih =>
    refine (ih (hacc.placedOn hplaced)).congr ?_
    rw [tasksHeld_cons, Multiset.coe_singleton, ← Multiset.singleton_add]
    abel

theorem admitJobs_ok {online : List Bool} (entries : List (String × JobInstance))
    (tasks : List AdmitTask) (hlen : pools.length ≤ online.length)
    (hacc : PoolsAccounts inventories pools held) :
    ∃ r, entries.foldlM (admitJob online) (tasks, pools) = .ok r := by
  induction entries generalizing pools tasks held with
  | nil => exact ⟨_, rfl⟩
  | cons entry entries ih =>
    rw [List.foldlM_cons, admitJob]
    split
    · exact ih tasks hlen hacc
    · have husable : pools.length ≤ (online.mapIdx fun node up =>
          up && !entry.2.rejectedBy node).length := by rwa [List.length_mapIdx]
      obtain ⟨⟨found, pools''⟩, hplace⟩ := hacc.place_single_ok entry.2.spec.resources husable
      dsimp only
      rw [hplace]
      simp only [Exec.ok_bind]
      rcases place_single_eq_ok hplace with ⟨rfl, rfl⟩ | ⟨node, alloc, rfl, option, -, hplaced⟩
      · exact ih tasks hlen hacc
      · have hacc' := hacc.placedOn hplaced
        exact ih _ (by rwa [hacc'.length_eq, ← hacc.length_eq]) hacc'

theorem admit_accounts {runs : List WorkflowRun} {online : List Bool}
    (hlen : pools.length ≤ online.length) (hacc : PoolsAccounts inventories pools held) :
    ∃ tasks pools', admitQueued runs pools online = .ok (tasks, pools') ∧
      PoolsAccounts inventories pools' (tasksHeld tasks + held) := by
  obtain ⟨⟨tasks, pools'⟩, hok⟩ := admitJobs_ok (allJobs runs) [] hlen hacc
  exact ⟨tasks, pools', hok, (admitQueued_eq_ok hok).accounts hacc⟩

/-! ### Applying launches and polls -/

/-- The jobs name only nodes of the controller as having turned them down. -/
def RejectedIn (n : ℕ) (runs : List WorkflowRun) : Prop :=
  ∀ run ∈ runs, ∀ job ∈ run.jobs, ∀ rejecter ∈ job.rejected, rejecter.1 < n

namespace RejectedIn

variable {n : ℕ} {runs : List WorkflowRun}

theorem findJob (h : RejectedIn n runs) {key : JobKey} {job : JobInstance}
    (hjob : findJob runs key = some job) : ∀ rejecter ∈ job.rejected, rejecter.1 < n := by
  obtain ⟨run, hrun, hj⟩ := findJob_eq_some.1 hjob
  exact h run (Keyed.mem_of_get? hrun) job (Keyed.mem_of_get? hj)

/-- A change that adds no node to a job's list. -/
theorem keep {runs' : List WorkflowRun} (h : RejectedIn n runs)
    (hkeep : JobsKeep JobInstance.rejected runs runs') : RejectedIn n runs' := by
  intro run' hrun' job' hjob'
  obtain ⟨run, hrun, job, hjob, heq⟩ := hkeep run' hrun' job' hjob'
  exact heq ▸ h run hrun job hjob

theorem updateJob (h : RejectedIn n runs) {key : JobKey} {f : JobInstance → JobInstance}
    (hf : ∀ job : JobInstance, (∀ rejecter ∈ job.rejected, rejecter.1 < n) →
      ∀ rejecter ∈ (f job).rejected, rejecter.1 < n) :
    RejectedIn n (updateJob runs key f) := by
  intro run' hrun' job' hjob'
  rcases Keyed.mem_modify.1 hrun' with ⟨run, hrun, -, rfl⟩ | ⟨hrun, -⟩
  · rcases Keyed.mem_modify.1 hjob' with ⟨job, hjob, -, rfl⟩ | ⟨hjob, -⟩
    · exact hf job (h run hrun job hjob)
    · exact h run hrun job' hjob
  · exact h run' hrun job' hjob'

end RejectedIn

theorem rejectionReasons_ok {nodes : List Node} {rejected : List (ℕ × String)}
    (h : ∀ rejecter ∈ rejected, rejecter.1 < nodes.length) :
    ∃ reasons, rejectionReasons nodes rejected = .ok reasons := by
  unfold rejectionReasons
  induction rejected with
  | nil => exact ⟨[], rfl⟩
  | cons rejecter rejected ih =>
    rw [List.forall_mem_cons] at h
    obtain ⟨reasons, hreasons⟩ := ih h.2
    obtain ⟨node, reason⟩ := rejecter
    have hnode : Exec.index nodes node = .ok nodes[node] :=
      Exec.index_eq_ok.2 (List.getElem?_eq_getElem h.1)
    rw [List.mapM_cons, hreasons]
    dsimp only
    rw [hnode]
    exact ⟨_, rfl⟩

/-- One launch: what it holds goes to its job, or back to the pools. -/
theorem applyLaunch_accounts {cfg : Config} (now : DateTime) {acc : Applied}
    {outcome : LaunchOutcome} (hkeys : KeysNodup acc.daemon.runs) {job : JobInstance}
    (hjob : findJob acc.daemon.runs outcome.key = some job) (hidle : job.executions = [])
    (hsingle : outcome.Single) (hnodes : inventories.length = cfg.nodes.length)
    (hrejected : RejectedIn cfg.nodes.length acc.daemon.runs)
    (hacc : PoolsAccounts inventories acc.daemon.pools
      (executionsHeld outcome.executions + (runsHeld acc.daemon.runs + rest))) :
    ∃ acc', applyLaunch cfg now acc outcome = .ok acc' ∧
      RejectedIn cfg.nodes.length acc'.daemon.runs ∧
      PoolsAccounts inventories acc'.daemon.pools (runsHeld acc'.daemon.runs + rest) := by
  obtain ⟨node, alloc, launched, hexec, hresult⟩ := hsingle
  have hnode : node < cfg.nodes.length := by
    rw [← hnodes, ← hacc.length_eq]
    exact hacc.inRange (node, alloc) (by simp [hexec, executionsHeld, Execution.member])
  have hfirst : Exec.index outcome.executions 0 = .ok ⟨node, alloc, launched.toOption⟩ :=
    Exec.index_eq_ok.2 (by rw [hexec]; rfl)
  -- a change of the job that leaves it without executions
  have hkept : ∀ {f : JobInstance → JobInstance}, (f job).executions = [] →
      runsHeld (updateJob acc.daemon.runs outcome.key f) = runsHeld acc.daemon.runs := by
    intro f hf
    obtain ⟨others, hheld, hheld'⟩ := runsHeld_updateJob hkeys hjob f
    rw [hheld, hheld', hf, hidle]
  unfold applyLaunch
  rw [hjob]
  dsimp only
  split
  · -- launched: the job holds the executions now
    obtain ⟨others, hheld, hheld'⟩ := runsHeld_updateJob hkeys hjob fun job =>
      job.started outcome.executions (logPath cfg.home cfg.nodes[node] outcome.runId outcome.jobId)
        now
    rw [hfirst, Exec.ok_bind, Exec.index_eq_ok.2 (List.getElem?_eq_getElem hnode), Exec.ok_bind]
    refine ⟨_, rfl, hrejected.updateJob fun _ h => h, hacc.congr ?_⟩
    rw [hheld, hheld', hidle, executionsHeld_nil, zero_add, JobInstance.started, add_assoc]
  all_goals obtain ⟨pools', hrel, hback⟩ := releaseExecutions_accounts hacc
  · rw [hrel, Exec.ok_bind]
    exact ⟨_, rfl, hrejected, hback⟩
  · next reason _ =>
    have hall : ∀ rejecter ∈ job.rejected ++ [(node, reason)], rejecter.1 < cfg.nodes.length :=
      List.forall_mem_append.2 ⟨hrejected.findJob hjob, by simpa using hnode⟩
    obtain ⟨reasons, hreasons⟩ := rejectionReasons_ok hall
    simp only [hfirst, hrel, hreasons, Exec.ok_bind]
    refine ⟨_, rfl, hrejected.updateJob fun _ _ => ?_, hback.congr ?_⟩
    · split <;> exact hall
    · exact congrArg (· + rest) (hkept (by split <;> exact hidle)).symm
  · rw [hrel, Exec.ok_bind]
    refine ⟨_, rfl, hrejected.updateJob fun _ h => h, hback.congr ?_⟩
    exact congrArg (· + rest) (hkept hidle).symm

theorem KeysNodup.of_kept {keys : List JobKey} {runs runs' : List WorkflowRun}
    (h : KeysNodup runs) (hkept : KeptExcept keys runs runs') : KeysNodup runs' := by
  have hids : (runs'.map WorkflowRun.runId).Nodup := hkept.ids ▸ h.runIds
  refine ⟨hids, fun run' hrun' => ?_⟩
  have hfind' : findRun runs' run'.runId = some run' := Keyed.get?_of_mem hids hrun'
  rcases hkept.run run'.runId with ⟨-, hnone⟩ | ⟨run, run'', hrun, hrun'', -, -, hjobs⟩
  · rw [hnone] at hfind'; cases hfind'
  · obtain rfl := Option.some.inj (hrun''.symm.trans hfind')
    exact hjobs ▸ h.jobIds run (Keyed.mem_of_get? hrun)

/-- The jobs with these keys are there and hold nothing. -/
def AllIdle (runs : List WorkflowRun) (keys : List JobKey) : Prop :=
  ∀ key ∈ keys, ∃ job, findJob runs key = some job ∧ job.state = .queued ∧ job.executions = []

theorem applyLaunches_accounts {cfg : Config} (now : DateTime) {outcomes : List LaunchOutcome}
    {acc : Applied} (hkeys : KeysNodup acc.daemon.runs)
    (hnodup : (outcomes.map LaunchOutcome.key).Nodup)
    (hidle : AllIdle acc.daemon.runs (outcomes.map LaunchOutcome.key))
    (hsingle : ∀ outcome ∈ outcomes, outcome.Single)
    (hnodes : inventories.length = cfg.nodes.length)
    (hrejected : RejectedIn cfg.nodes.length acc.daemon.runs)
    (hacc : PoolsAccounts inventories acc.daemon.pools
      (outcomesHeld outcomes + (runsHeld acc.daemon.runs + rest))) :
    ∃ acc', outcomes.foldlM (applyLaunch cfg now) acc = .ok acc' ∧
      RejectedIn cfg.nodes.length acc'.daemon.runs ∧
      PoolsAccounts inventories acc'.daemon.pools (runsHeld acc'.daemon.runs + rest) := by
  induction outcomes generalizing acc with
  | nil => exact ⟨acc, rfl, hrejected, hacc.congr (by simp)⟩
  | cons outcome outcomes ih =>
    rw [List.map_cons, List.nodup_cons] at hnodup
    rw [List.forall_mem_cons] at hsingle
    obtain ⟨job, hjob, hqueued, hexec⟩ := hidle outcome.key List.mem_cons_self
    have hsplit : outcomesHeld (outcome :: outcomes) + (runsHeld acc.daemon.runs + rest) =
        executionsHeld outcome.executions +
          (runsHeld acc.daemon.runs + (outcomesHeld outcomes + rest)) := by
      rw [outcomesHeld_cons]; abel
    obtain ⟨mid, hmid, hrejected', hacc'⟩ := applyLaunch_accounts now hkeys hjob hexec hsingle.1
      hnodes hrejected (hacc.congr hsplit)
    have hkept := (applyLaunch_applied hsingle.1 hmid).kept
    have hidle' : AllIdle mid.daemon.runs (outcomes.map LaunchOutcome.key) := fun key hkey => by
      rw [hkept.kept key fun hmem => hnodup.1 (List.mem_singleton.1 hmem ▸ hkey)]
      exact hidle key (List.mem_cons_of_mem _ hkey)
    obtain ⟨acc', hrest, hdone⟩ := ih (hkeys.of_kept hkept) hnodup.2 hidle' hsingle.2 hrejected'
      (hacc'.congr (by abel))
    exact ⟨acc', by rw [List.foldlM_cons, hmid, Exec.ok_bind, hrest], hdone⟩

/-- One poll: what its job held goes back to the pools once the job ends. -/
theorem applyPoll_accounts {n : ℕ} (now : DateTime) {acc : Applied} (entry : PollEntry)
    (hkeys : KeysNodup acc.daemon.runs) (hrejected : RejectedIn n acc.daemon.runs)
    (hacc : PoolsAccounts inventories acc.daemon.pools (runsHeld acc.daemon.runs + rest)) :
    ∃ acc', applyPoll now acc entry = .ok acc' ∧ RejectedIn n acc'.daemon.runs ∧
      PoolsAccounts inventories acc'.daemon.pools (runsHeld acc'.daemon.runs + rest) := by
  unfold applyPoll
  split
  · exact ⟨acc, rfl, hrejected, hacc⟩
  next job hjob =>
  -- the job gives back what it held
  have hended : ∀ {f : JobInstance → JobInstance}, (f job).executions = [] →
      ∃ pools', releaseExecutions acc.daemon.pools job.executions = .ok pools' ∧
        PoolsAccounts inventories pools'
          (runsHeld (updateJob acc.daemon.runs entry.key f) + rest) := by
    intro f hf
    obtain ⟨others, hheld, hheld'⟩ := runsHeld_updateJob hkeys hjob f
    have hsplit : runsHeld acc.daemon.runs + rest =
        executionsHeld job.executions + (others + rest) := by rw [hheld, add_assoc]
    obtain ⟨pools', hrel, hback⟩ := releaseExecutions_accounts (hacc.congr hsplit)
    exact ⟨pools', hrel, hback.congr (by rw [hheld', hf, executionsHeld_nil, zero_add])⟩
  split
  · exact ⟨acc, rfl, hrejected, hacc⟩
  · next error _ _ =>
    obtain ⟨pools', hrel, hback⟩ := hended (f := fun job => job.pollFailed error now) rfl
    rw [hrel, Exec.ok_bind]
    exact ⟨_, rfl, hrejected.updateJob fun _ h => h, hback⟩
  · exact ⟨acc, rfl, hrejected, hacc⟩
  · next exitCode _ =>
    obtain ⟨pools', hrel, hback⟩ := hended
      (f := fun job => job.exited exitCode entry.cancelling entry.tail now)
      (job.exited_executions _ _ _ _)
    simp only [hrel, Exec.ok_bind]
    exact ⟨_, rfl, hrejected.updateJob fun job h => by rwa [job.exited_rejected], hback⟩

theorem applyPolls_accounts {n : ℕ} (now : DateTime) (entries : List PollEntry) {acc : Applied}
    (hkeys : KeysNodup acc.daemon.runs) (hrejected : RejectedIn n acc.daemon.runs)
    (hacc : PoolsAccounts inventories acc.daemon.pools (runsHeld acc.daemon.runs + rest)) :
    ∃ acc', entries.foldlM (applyPoll now) acc = .ok acc' ∧ RejectedIn n acc'.daemon.runs ∧
      PoolsAccounts inventories acc'.daemon.pools (runsHeld acc'.daemon.runs + rest) := by
  obtain ⟨acc', hpolls, -, hdone⟩ := Exec.foldlM_total
    (P := fun mid : Applied => KeysNodup mid.daemon.runs ∧ RejectedIn n mid.daemon.runs ∧
      PoolsAccounts inventories mid.daemon.pools (runsHeld mid.daemon.runs + rest))
    (fun mid entry _ ⟨hkeys, hrejected, hacc⟩ => by
      obtain ⟨mid', hmid, hrejected', hacc'⟩ := applyPoll_accounts now entry hkeys hrejected hacc
      exact ⟨mid', hmid, hkeys.of_kept (applyPoll_applied hmid).kept, hrejected', hacc'⟩)
    ⟨hkeys, hrejected, hacc⟩
  exact ⟨acc', hpolls, hdone⟩

/-! ### Every step -/

/-- What holds between any two steps: the jobs' invariant, and the accounts of every node. -/
structure AccountsInv (cfg : Config) (inventories : List SystemResources) (s : SchedulerState) :
    Prop extends JobsInv s where
  nodes : inventories.length = cfg.nodes.length
  rejected : RejectedIn cfg.nodes.length s.daemon.runs
  accounts : PoolsAccounts inventories s.daemon.pools s.held

namespace AccountsInv

variable {cfg : Config} {s s' : SchedulerState} {label : Label}

theorem length_pools (h : AccountsInv cfg inventories s) :
    s.daemon.pools.length = cfg.nodes.length := h.accounts.length_eq.trans h.nodes

/-- A job's executions are on nodes of the controller. -/
theorem node_lt (h : AccountsInv cfg inventories s) {key : JobKey} {job : JobInstance}
    (hjob : findJob s.daemon.runs key = some job) {execution : Execution}
    (hmem : execution ∈ job.executions) : execution.node < cfg.nodes.length := by
  rw [← h.length_pools]
  refine h.accounts.inRange execution.member (Multiset.mem_of_le ?_
    (Multiset.mem_coe.2 (List.mem_map_of_mem hmem)))
  exact (executionsHeld_le h.keys hjob).trans (Multiset.le_add_right _ _)

theorem flushTransition_ok (h : AccountsInv cfg inventories s) (key : JobKey) (written : Bool)
    (emittedAt : ℕ) :
    ∃ daemon', flushTransition cfg s.daemon key written emittedAt = .ok daemon' := by
  unfold flushTransition
  split
  · exact ⟨_, rfl⟩
  next run hrun =>
  split
  · exact ⟨_, rfl⟩
  next job hj =>
  have hname : ∃ name, nodeName cfg job = .ok name := by
    unfold nodeName
    split
    · exact ⟨_, rfl⟩
    · next execution hhead =>
      have hlt := h.node_lt (findJob_eq_some.2 ⟨run, hrun, hj⟩) (List.mem_of_head? hhead)
      exact ⟨_, by rw [Exec.index_eq_ok.2 (List.getElem?_eq_getElem hlt)]; rfl⟩
  obtain ⟨name, hname⟩ := hname
  exact ⟨_, by rw [hname]; rfl⟩

theorem finish_ok {daemon : DaemonState} {checks : GpuChecks} {ended : List Qualification}
    (h : AccountsInv cfg inventories ⟨daemon, checks, .finishing [] ended⟩) :
    ∃ pools', finishQualifications daemon.pools ended = .ok pools' ∧
      PoolsAccounts inventories pools' (runsHeld daemon.runs + checks.held) :=
  finishQualifications_accounts (h.accounts.congr (by
    simp only [SchedulerState.held, Phase.held, List.nil_append]; abel))

theorem start_ok {daemon : DaemonState} {checks : GpuChecks} {card : ToQualify}
    {todo : List ToQualify}
    (h : AccountsInv cfg inventories ⟨daemon, checks, .qualifying (card :: todo)⟩)
    (result : Except ExecutorError JobHandle) (now : Instant) :
    ∃ pools' checks', startQualification daemon.pools checks card result now =
        .ok (pools', checks') ∧
      PoolsAccounts inventories pools'
        (checks'.held + (runsHeld daemon.runs + ↑(todo.map ToQualify.member))) :=
  startQualification_accounts result now (h.accounts.congr (by
    simp only [SchedulerState.held, Phase.held, List.map_cons, ← Multiset.cons_coe,
      ← Multiset.singleton_add]
    abel))

theorem block_ok {daemon : DaemonState} {checks : GpuChecks} {views : List NodeView}
    (h : AccountsInv cfg inventories ⟨daemon, checks, .blocking⟩)
    (hlen : views.length = cfg.nodes.length) (utc : DateTime) (now : Instant) :
    ∃ pools' requalify' toQualify', blockGpus daemon checks views utc now =
        .ok ({ daemon with pools := pools', requalify := requalify' }, toQualify') ∧
      PoolsAccounts inventories pools' (↑(toQualify'.map ToQualify.member) +
        (runsHeld daemon.runs + checks.held)) :=
  blockGpus_accounts (hlen.trans h.length_pools.symm).le
    (h.accounts.congr (by simp only [SchedulerState.held, Phase.held, add_zero]))

theorem admit_ok {daemon : DaemonState} {checks : GpuChecks} {online : List Bool}
    (h : AccountsInv cfg inventories ⟨daemon, checks, .admitting⟩)
    (hlen : online.length = cfg.nodes.length) :
    ∃ tasks pools', Roster.admitQueued daemon.runs daemon.pools online = .ok (tasks, pools') ∧
      PoolsAccounts inventories pools' (tasksHeld tasks + (runsHeld daemon.runs + checks.held)) :=
  admit_accounts (h.length_pools.trans hlen.symm).le
    (h.accounts.congr (by simp only [SchedulerState.held, Phase.held, add_zero]))

theorem launches_ok {daemon : DaemonState} {checks : GpuChecks} {outcomes : List LaunchOutcome}
    (h : AccountsInv cfg inventories ⟨daemon, checks, .launching [] outcomes⟩) (now : DateTime) :
    ∃ applied, applyLaunches cfg now daemon outcomes = .ok applied ∧
      RejectedIn cfg.nodes.length applied.daemon.runs ∧
      PoolsAccounts inventories applied.daemon.pools
        (runsHeld applied.daemon.runs + checks.held) := by
  obtain ⟨hin, -, hsingle⟩ := h.phase
  rw [List.map_nil, List.nil_append] at hin
  unfold applyLaunches
  refine applyLaunches_accounts now h.keys hin.nodup (fun key hkey => ?_) hsingle h.nodes
    h.rejected (h.accounts.congr ?_)
  · obtain ⟨job, hjob, hqueued⟩ := hin.found key hkey
    exact ⟨job, hjob, hqueued, (h.holds key job hjob).idle (by rw [hqueued]; decide)⟩
  · simp only [SchedulerState.held, Phase.held, tasksHeld, List.map_nil, List.sum_nil, zero_add]
    abel

theorem polls_ok {daemon : DaemonState} {checks : GpuChecks} {entries : List PollEntry}
    (h : AccountsInv cfg inventories ⟨daemon, checks, .polling [] entries⟩) (now : DateTime) :
    ∃ applied, applyPolls now daemon entries = .ok applied ∧
      RejectedIn cfg.nodes.length applied.daemon.runs ∧
      PoolsAccounts inventories applied.daemon.pools
        (runsHeld applied.daemon.runs + checks.held) :=
  applyPolls_accounts now entries h.keys h.rejected
    (h.accounts.congr (by simp only [SchedulerState.held, Phase.held, add_zero]))

end AccountsInv

/-! ### The lists of nodes that turned jobs down -/

theorem RejectedIn.new {spec : WorkflowSpec} (h : Dag.Accepts spec) (n : ℕ) (runId : String)
    (runSeq jobSeq : ℕ) (now : DateTime) :
    ∀ job ∈ (WorkflowRun.new runId runSeq spec jobSeq now).jobs, ∀ rejecter ∈ job.rejected,
      rejecter.1 < n := by
  rw [WorkflowRun.jobs_new (Dag.exists_topological h).1]
  intro job hjob
  obtain ⟨entry, -, rfl⟩ := List.mem_map.1 hjob
  simp [JobInstance.new]

namespace AccountsInv

variable {cfg : Config} {s s' : SchedulerState} {label : Label}

/-- Every step keeps the accounts. -/
theorem step (hinv : AccountsInv cfg inventories s) (h : Step cfg s label s') :
    AccountsInv cfg inventories s' := by
  have hjobs := hinv.toJobsInv.step h
  have hrejected := hinv.rejected
  cases h with
  | @submit _ runId spec _ now _ _ hfresh hspec _ =>
    refine ⟨hjobs, hinv.nodes, ?_, hinv.accounts.congr ?_⟩
    · rw [submit_runs hfresh]
      exact List.forall_mem_append.2 ⟨hrejected, List.forall_mem_singleton.2
        (RejectedIn.new hspec _ _ _ _ _)⟩
    -- a new run holds nothing
    · have hheld := WorkflowRun.held_new hspec runId s.daemon.runCounter s.daemon.jobCounter now
      simp [SchedulerState.held, submit_runs hfresh, runsHeld, hheld]
  | cancel runId =>
    refine ⟨hjobs, hinv.nodes, hrejected.keep (.cancelRun fun _ => rfl), hinv.accounts.congr ?_⟩
    simp only [SchedulerState.held, runsHeld_cancelRun]
  | reorderRuns hperm =>
    refine ⟨hjobs, hinv.nodes, hrejected.keep (.perm hperm), hinv.accounts.congr ?_⟩
    simp only [SchedulerState.held, runsHeld_perm hperm]
  | reorderJobs hrun hperm =>
    refine ⟨hjobs, hinv.nodes, hrejected.keep (.reorderJobs hrun hperm), hinv.accounts.congr ?_⟩
    simp only [SchedulerState.held, runsHeld_reorderJobs hinv.nodup hrun hperm]
  | checkGpus =>
    refine ⟨hjobs, hinv.nodes, hrejected, hinv.accounts.congr ?_⟩
    simp [SchedulerState.held, Phase.held, GpuChecks.held]
  | qualificationOver _ =>
    refine ⟨hjobs, hinv.nodes, hrejected, hinv.accounts.congr ?_⟩
    simp only [SchedulerState.held, Phase.held, List.cons_append, List.map_append, List.map_cons,
      ← Multiset.cons_coe, ← Multiset.coe_add, List.map_nil, ← Multiset.singleton_add,
      Multiset.coe_nil]
    abel
  | qualificationKept _ =>
    refine ⟨hjobs, hinv.nodes, hrejected, hinv.accounts.congr ?_⟩
    simp only [SchedulerState.held, Phase.held, GpuChecks.held, List.cons_append, List.map_append,
      List.map_cons, ← Multiset.cons_coe, ← Multiset.coe_add, List.map_nil,
      ← Multiset.singleton_add, Multiset.coe_nil]
    abel
  | qualificationsFinished hok =>
    -- the section releases what ended qualifications held
    obtain ⟨pools', hok', hacc⟩ := hinv.finish_ok
    obtain rfl := Except.ok.inj (hok'.symm.trans hok)
    exact ⟨hjobs, hinv.nodes, hrejected, hacc.congr (by simp [SchedulerState.held, Phase.held])⟩
  | gpusBlocked hlen hok =>
    obtain ⟨pools', requalify', toQualify', hok', hacc⟩ := hinv.block_ok hlen _ _
    obtain ⟨rfl, rfl⟩ := Prod.mk.inj (Except.ok.inj (hok'.symm.trans hok))
    refine ⟨hjobs, hinv.nodes, hrejected, hacc.congr ?_⟩
    simp only [SchedulerState.held, Phase.held]
    abel
  | qualificationLaunched hok =>
    obtain ⟨pools', checks', hok', hacc⟩ := hinv.start_ok _ _
    obtain ⟨rfl, rfl⟩ := Prod.mk.inj (Except.ok.inj (hok'.symm.trans hok))
    refine ⟨hjobs, hinv.nodes, hrejected, hacc.congr ?_⟩
    simp only [SchedulerState.held, Phase.held]
    abel
  | gpusChecked => exact ⟨hjobs, hinv.nodes, hrejected, hinv.accounts⟩
  | tick =>
    refine ⟨hjobs, hinv.nodes, hrejected.keep (.advancePending fun _ => rfl),
      hinv.accounts.congr ?_⟩
    simp only [SchedulerState.held, Phase.held, runsHeld_advancePending]
  | flushed hok =>
    obtain ⟨_, _, rfl⟩ := flushTransition_eq_ok hok
    exact ⟨hjobs, hinv.nodes, hrejected, hinv.accounts⟩
  | flushDone next =>
    refine ⟨hjobs, hinv.nodes, hrejected, hinv.accounts.congr ?_⟩
    cases next <;> rfl
  | cascade now =>
    refine ⟨hjobs, hinv.nodes, hrejected.keep (.cascadeSkipped fun _ => rfl),
      hinv.accounts.congr ?_⟩
    simp only [SchedulerState.held, Phase.held, runsHeld_cascadeSkipped]
  | admitQueued hlen hok =>
    -- what is booked here is held by the launches until they are applied
    obtain ⟨tasks', pools', hok', hacc⟩ := hinv.admit_ok hlen
    obtain ⟨rfl, rfl⟩ := Prod.mk.inj (Except.ok.inj (hok'.symm.trans hok))
    refine ⟨hjobs, hinv.nodes, hrejected, hacc.congr ?_⟩
    simp only [SchedulerState.held, Phase.held, outcomesHeld_nil]
    abel
  | launched hlen =>
    refine ⟨hjobs, hinv.nodes, hrejected, hinv.accounts.congr ?_⟩
    simp only [SchedulerState.held, Phase.held, tasksHeld_cons, outcomesHeld, List.map_append,
      List.sum_append, List.map_cons, List.map_nil, List.sum_singleton,
      AdmitTask.held_outcome hlen]
    abel
  | launchesApplied hok =>
    obtain ⟨applied', hok', hrejected', hacc⟩ := hinv.launches_ok _
    obtain rfl := Except.ok.inj (hok'.symm.trans hok)
    exact ⟨hjobs, hinv.nodes, hrejected', hacc.congr (by simp [SchedulerState.held, Phase.held])⟩
  | collect => exact ⟨hjobs, hinv.nodes, hrejected, hinv.accounts⟩
  | polled => exact ⟨hjobs, hinv.nodes, hrejected, hinv.accounts⟩
  | pollsApplied hok =>
    obtain ⟨applied', hok', hrejected', hacc⟩ := hinv.polls_ok _
    obtain rfl := Except.ok.inj (hok'.symm.trans hok)
    exact ⟨hjobs, hinv.nodes, hrejected', hacc.congr (by simp [SchedulerState.held, Phase.held])⟩

end AccountsInv

/-! ### Qualifications hold nothing but their card -/

/-- The allocation takes neither cores nor memory. -/
def Allocation.CardOnly (alloc : Allocation) : Prop := alloc.cpu = 0 ∧ alloc.memoryMb = 0

/-- Whatever is held for a qualification is a card only. -/
structure CardsOnly (s : SchedulerState) : Prop where
  qualifying : ∀ qualification ∈ s.checks.qualifying, qualification.allocation.CardOnly
  phase : match s.phase with
    | .finishing todo _ => ∀ qualification ∈ todo, qualification.allocation.CardOnly
    | .qualifying todo => ∀ card ∈ todo, card.allocation.CardOnly
    | _ => True

theorem checkNodes_cardOnly {lastQualified : List ((ℕ × UInt32) × Instant)} {utc : DateTime}
    {now : Instant} {views : List NodeView} {node : ℕ}
    {acc acc' : List ResourcePool × List (ℕ × UInt32) × List ToQualify}
    (h : checkNodes lastQualified utc now node views acc = .ok acc')
    (hacc : ∀ card ∈ acc.2.2, card.allocation.CardOnly) :
    ∀ card ∈ acc'.2.2, card.allocation.CardOnly := by
  induction views generalizing node acc with
  | nil => exact Except.ok.inj h ▸ hacc
  | cons view views ih =>
    obtain ⟨pools, requalify, toQualify⟩ := acc
    simp only [checkNodes, Exec.bind_eq_ok] at h
    obtain ⟨pool, -, check, hcheck, hrest⟩ := h
    refine ih hrest ?_
    rcases checkNode_eq_ok hcheck with ⟨-, rfl⟩ | ⟨reading, -, -, hcards⟩
    · exact hacc
    · refine Exec.foldlM_invariant (P := fun check : CardCheck =>
        ∀ card ∈ check.toQualify, card.allocation.CardOnly) (fun check gpu check' _ hold hok => ?_)
        hcards hacc
      cases checkCard_eq_ok hok with
      | flagged _ => exact hold
      | reserved _ _ _ =>
        exact List.forall_mem_append.2 ⟨hold, List.forall_mem_singleton.2 ⟨rfl, rfl⟩⟩

theorem CardsOnly.step {cfg : Config} {s s' : SchedulerState} {label : Label} (hinv : CardsOnly s)
    (h : Step cfg s label s') : CardsOnly s' := by
  obtain ⟨hqual, hphase⟩ := hinv
  cases h with
  | submit _ _ _ => exact ⟨hqual, hphase⟩
  | cancel _ => exact ⟨hqual, hphase⟩
  | reorderRuns _ => exact ⟨hqual, hphase⟩
  | reorderJobs _ _ => exact ⟨hqual, hphase⟩
  | checkGpus => exact ⟨by simp, hqual⟩
  | qualificationOver _ => exact ⟨hqual, (List.forall_mem_cons.1 hphase).2⟩
  | qualificationKept _ =>
    obtain ⟨hfirst, hrest⟩ := List.forall_mem_cons.1 hphase
    exact ⟨List.forall_mem_append.2 ⟨hqual, List.forall_mem_singleton.2 hfirst⟩, hrest⟩
  | gpusBlocked _ hok =>
    obtain ⟨pools, requalify, rfl, hcheck⟩ := blockGpus_eq_ok hok
    exact ⟨hqual, checkNodes_cardOnly hcheck (by simp)⟩
  | @qualificationLaunched daemon checks card todo result now pools checks' hok =>
    obtain ⟨hfirst, hrest⟩ := List.forall_mem_cons.1 hphase
    refine ⟨?_, hrest⟩
    unfold startQualification at hok
    cases result with
    | ok handle =>
      obtain ⟨-, rfl⟩ := Prod.mk.inj (Exec.pure_eq_ok.1 hok)
      exact List.forall_mem_append.2 ⟨hqual, List.forall_mem_singleton.2 hfirst⟩
    | error error =>
      obtain ⟨_, -, hok⟩ := Exec.bind_eq_ok.1 hok
      obtain ⟨-, rfl⟩ := Prod.mk.inj (Exec.pure_eq_ok.1 hok)
      exact hqual
  | flushDone next => exact ⟨hqual, by cases next <;> trivial⟩
  | _ => exact ⟨hqual, trivial⟩

/-! ### Runs -/

theorem AccountsInv.init {cfg : Config} (hnodes : inventories.length = cfg.nodes.length)
    (hindexed : ∀ resources ∈ inventories, resources.Indexed) :
    AccountsInv cfg inventories (.init (inventories.map .new)) where
  toJobsInv := (SchedulerState.Fresh.init _).jobsInv
  nodes := hnodes
  rejected _ hrun := by cases hrun
  accounts := .new hindexed

theorem CardsOnly.init (pools : List ResourcePool) : CardsOnly (.init pools) :=
  ⟨fun _ h => (List.not_mem_nil h).elim, trivial⟩

section Reach

variable {cfg : Config} {s : SchedulerState} (hnodes : inventories.length = cfg.nodes.length)
  (hindexed : ∀ resources ∈ inventories, resources.Indexed)
  (h : (scheduler cfg).Reach (.init (inventories.map .new)) s)
include hnodes hindexed h

theorem AccountsInv.reach : AccountsInv cfg inventories s :=
  h.invariant (.init hnodes hindexed) fun _ _ _ _ hinv hstep => hinv.step (step_of_perform hstep)

omit hnodes hindexed in
theorem CardsOnly.reach : CardsOnly s :=
  h.invariant (.init _) fun _ _ _ _ hinv hstep => hinv.step (step_of_perform hstep)

end Reach

/-- No section of the scheduler panics. -/
theorem AccountsInv.not_panics {cfg : Config} {s : SchedulerState}
    (h : AccountsInv cfg inventories s) (label : Label) (panic : Panic) :
    s.perform cfg label ≠ some (.error panic) := by
  have hnext : ∀ s' : SchedulerState, s'.next ≠ some (.error panic) := by
    simp [SchedulerState.next]
  have hnone : (none : Option (Exec SchedulerState)) ≠ some (.error panic) := by simp
  have hafter : ∀ {α : Type} {x : Exec α} {f : α → SchedulerState}, (∃ a, x = .ok a) →
      SchedulerState.after x f ≠ some (.error panic) := by
    rintro α x f ⟨a, rfl⟩
    simp [SchedulerState.after]
  unfold SchedulerState.perform
  split
  · split <;> [exact hnext _; exact hnone]
  · exact hnext _
  · split <;> [exact hnext _; exact hnone]
  · split
    · exact hnone
    · split <;> [exact hnext _; exact hnone]
  -- only the sections that book, release or flush can panic; the others just go on
  obtain ⟨daemon, checks, phase⟩ := s
  dsimp only [SchedulerState.advance]
  split
  case h_2 => split <;> exact hnext _
  case h_3 => exact hafter ⟨_, h.finish_ok.choose_spec.1⟩
  case h_4 =>
    split
    · next hlen =>
      obtain ⟨_, _, _, hok, -⟩ := h.block_ok hlen _ _
      exact hafter ⟨_, hok⟩
    · exact hnone
  case h_5 =>
    obtain ⟨_, _, hok, -⟩ := h.start_ok _ _
    exact hafter ⟨_, hok⟩
  case h_8 => exact hafter (h.flushTransition_ok _ _ _)
  case h_11 =>
    split
    · next hlen =>
      obtain ⟨_, _, hok, -⟩ := h.admit_ok hlen
      exact hafter ⟨_, hok⟩
    · exact hnone
  case h_12 => split <;> [exact hnext _; exact hnone]
  case h_13 => exact hafter ⟨_, (h.launches_ok _).choose_spec.1⟩
  case h_16 => exact hafter ⟨_, (h.polls_ok _).choose_spec.1⟩
  case h_17 => exact hnone
  all_goals exact hnext _

/-! ### Between two calls -/

/-- The executions that jobs hold on a node. -/
def executionsOn (runs : List WorkflowRun) (node : ℕ) : List Execution :=
  ((allJobs runs).flatMap fun entry => entry.2.executions).filter fun execution =>
    decide (execution.node = node)

/-- The executions that Running jobs hold on a node. -/
def runningOn (runs : List WorkflowRun) (node : ℕ) : List Execution :=
  (((allJobs runs).filter fun entry => decide (entry.2.state = .running)).flatMap fun entry =>
    entry.2.executions).filter fun execution => decide (execution.node = node)

/-- The qualifications on a node. -/
def qualifyingOn (checks : GpuChecks) (node : ℕ) : List Qualification :=
  checks.qualifying.filter fun qualification => decide (qualification.node = node)

theorem runsHeld_eq (runs : List WorkflowRun) : runsHeld runs =
    ↑(((allJobs runs).flatMap fun entry => entry.2.executions).map Execution.member) := by
  have hjobs : ∀ (runId : String) (jobs : List JobInstance),
      (jobs.map fun job => executionsHeld job.executions).sum =
        ↑(((jobs.map fun job => (runId, job)).flatMap fun entry => entry.2.executions).map
          Execution.member) := by
    intro runId jobs
    induction jobs with
    | nil => rfl
    | cons job jobs ih =>
      rw [List.map_cons, List.sum_cons, ih, List.map_cons, List.flatMap_cons, List.map_append,
        ← Multiset.coe_add]
      rfl
  induction runs with
  | nil => rfl
  | cons run runs ih =>
    have hcons : allJobs (run :: runs) =
        run.jobs.map (fun job => (run.runId, job)) ++ allJobs runs := List.flatMap_cons
    rw [runsHeld, List.map_cons, List.sum_cons, ← runsHeld, ih, hcons, List.flatMap_append,
      List.map_append, ← Multiset.coe_add, WorkflowRun.held, hjobs run.runId run.jobs]

theorem heldOn_add (node : ℕ) (held held' : Multiset (ℕ × Allocation)) :
    heldOn node (held + held') = heldOn node held + heldOn node held' := by
  simp [heldOn, Multiset.filter_add]

theorem heldOn_map {α : Type} (node : ℕ) (member : α → ℕ × Allocation) (l : List α) :
    heldOn node ↑(l.map member) =
      ↑((l.filter fun a => decide ((member a).1 = node)).map fun a => (member a).2) := by
  simp [heldOn, List.filter_map, Function.comp_def]

/-- What is out on a node between two calls: the jobs' executions and the qualifications. -/
theorem SchedulerState.heldOn_idle {s : SchedulerState} (hidle : s.phase = .idle) (node : ℕ) :
    heldOn node s.held = ↑((executionsOn s.daemon.runs node).map Execution.allocation) +
      ↑((qualifyingOn s.checks node).map Qualification.allocation) := by
  rw [SchedulerState.held, hidle, Phase.held_idle, add_zero, heldOn_add, runsHeld_eq,
    GpuChecks.held, heldOn_map, heldOn_map]
  rfl

/-- Only Running jobs hold executions. -/
theorem JobsInv.runningOn {s : SchedulerState} (h : JobsInv s) (node : ℕ) :
    runningOn s.daemon.runs node = executionsOn s.daemon.runs node := by
  unfold Roster.runningOn executionsOn
  have hidle : ∀ entries : List (String × JobInstance), entries ⊆ allJobs s.daemon.runs →
      ((entries.filter fun entry => decide (entry.2.state = .running)).flatMap fun entry =>
        entry.2.executions) = entries.flatMap fun entry => entry.2.executions := by
    intro entries hsub
    induction entries with
    | nil => rfl
    | cons entry entries ih =>
      rw [List.cons_subset] at hsub
      rw [List.filter_cons, List.flatMap_cons, ← ih hsub.2]
      split
      · rw [List.flatMap_cons]
      · next hne =>
        rw [(h.holds _ _ (h.keys.findJob hsub.1)).idle (by simpa using hne), List.nil_append]
  rw [hidle _ (List.Subset.refl _)]

/-- **Nothing is leaked or returned twice.**  Between any two calls of `check_gpus` and `tick`, on
every node the free cores and memory and those of the jobs' executions add up to the inventory, and
a card with VRAM is free, or held by exactly one of the Running jobs' executions and the running
qualifications.  No section panics on the way. -/
theorem accounts_balanced {cfg : Config} {inventories : List SystemResources}
    (hnodes : inventories.length = cfg.nodes.length)
    (hindexed : ∀ resources ∈ inventories, resources.Indexed) {s : SchedulerState}
    (h : (scheduler cfg).Reach (.init (inventories.map .new)) s) :
    (∀ label panic, s.perform cfg label ≠ some (.error panic)) ∧
    (s.phase = .idle → s.daemon.pools.length = inventories.length ∧
      ∀ node pool, s.daemon.pools[node]? = some pool → inventories[node]? = some pool.total ∧
        pool.availableCpu.toNat + ((executionsOn s.daemon.runs node).map fun execution =>
          execution.allocation.cpu.toNat).sum = pool.total.cpuCores.toNat ∧
        pool.availableMemoryMb.toNat + ((executionsOn s.daemon.runs node).map fun execution =>
          execution.allocation.memoryMb.toNat).sum = pool.total.memoryMb.toNat ∧
        ∀ i gpu, pool.total.gpus[i]? = some gpu → gpu.vramMb ≠ 0 →
          let holders := (runningOn s.daemon.runs node).countP (·.allocation.holds i) +
            (qualifyingOn s.checks node).countP (·.allocation.holds i)
          (pool.availableVramMb[i]? = some gpu.vramMb ∧ holders = 0) ∨
            (pool.availableVramMb[i]? = some 0 ∧ holders = 1)) := by
  have hinv := AccountsInv.reach hnodes hindexed h
  refine ⟨hinv.not_panics, fun hidle => ⟨hinv.accounts.length_eq, fun node pool hpool => ?_⟩⟩
  have hacc := hinv.accounts.accounts node pool hpool
  rw [SchedulerState.heldOn_idle hidle] at hacc
  -- qualifications take neither cores nor memory
  have hcards : ∀ qualification ∈ qualifyingOn s.checks node,
      qualification.allocation.CardOnly := fun qualification hmem =>
    (CardsOnly.reach h).qualifying qualification (List.mem_filter.1 hmem).1
  have hzero : ∀ amount : Allocation → ℕ,
      (∀ alloc : Allocation, alloc.CardOnly → amount alloc = 0) →
      ((qualifyingOn s.checks node).map fun qualification =>
        amount qualification.allocation).sum = 0 := fun amount hamount =>
    List.sum_eq_zero fun n hn => by
      obtain ⟨qualification, hmem, rfl⟩ := List.mem_map.1 hn
      exact hamount _ (hcards qualification hmem)
  refine ⟨?_, ?_, ?_, fun i gpu hi hvram => ?_⟩
  · rw [← hinv.accounts.totals, List.getElem?_map, hpool, Option.map_some]
  · have hcpu := hacc.cpu
    have hqual := hzero (fun alloc => alloc.cpu.toNat) fun alloc h => by rw [h.1]; rfl
    simpa [Function.comp_def, hqual] using hcpu
  · have hmemory := hacc.memory
    have hqual := hzero (fun alloc => alloc.memoryMb.toNat) fun alloc h => by rw [h.2]; rfl
    simpa [Function.comp_def, hqual] using hmemory
  · have hcard := hacc.card hi hvram
    rw [Multiset.countP_add, Multiset.coe_countP, Multiset.coe_countP, List.countP_map,
      List.countP_map] at hcard
    rw [hinv.toJobsInv.runningOn]
    simpa [Function.comp_def] using hcard

/-- The tick in which the first of two jobs gets the card. -/
def firstTick : List Label :=
  givesCard ++ [.collect, .polled (.ok .running) none, .pollsApplied 5, .flushDone]

/-- After that tick the job's core is out and the others are free, and the card is booked by that
job and nobody else. -/
theorem firstTick_balanced : ∃ (s : SchedulerState) (pool : ResourcePool), s.phase = .idle ∧
    s.daemon.pools[0]? = some pool ∧ pool.availableVramMb = [0] ∧
    pool.availableCpu.toNat + ((executionsOn s.daemon.runs 0).map fun execution =>
      execution.allocation.cpu.toNat).sum = pool.total.cpuCores.toNat ∧
    (runningOn s.daemon.runs 0).countP (·.allocation.holds 0) +
      (qualifyingOn s.checks 0).countP (·.allocation.holds 0) = 1 := by
  have hrun : ((SchedulerState.run oneMachine (.init [.new oneCard]) firstTick).map
      fun s => (s.phase matches .idle, s.daemon.pools.map ResourcePool.availableVramMb)) =
        some (true, [[0]]) := by decide
  obtain ⟨s, hs, hend⟩ := Option.map_eq_some_iff.1 hrun
  obtain ⟨hidle, hfree⟩ := Prod.mk.inj hend
  have hphase : s.phase = .idle := by
    revert hidle
    cases s.phase <;> simp
  obtain ⟨pool, hpools, hvram⟩ := List.map_eq_singleton_iff.1 hfree
  have hpool : s.daemon.pools[0]? = some pool := by rw [hpools]; rfl
  have hnodes : [oneCard].length = oneMachine.nodes.length := rfl
  have hbalanced :=
    (accounts_balanced hnodes (by decide) (SchedulerState.reach_of_run hs)).2 hphase
  obtain ⟨htotal, hcpu, -, hcards⟩ := hbalanced.2 0 pool hpool
  have hcard : pool.total.gpus[0]? = some ⟨0, "fake", 24576, ""⟩ := by
    rw [← show oneCard = pool.total from Option.some.inj htotal]
    rfl
  refine ⟨s, pool, hphase, hpool, hvram, hcpu, ?_⟩
  rcases hcards 0 _ hcard (by decide) with ⟨hopen, -⟩ | ⟨-, hone⟩
  · rw [hvram] at hopen
    cases hopen
  · exact hone

end Roster
