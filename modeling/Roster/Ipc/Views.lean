import Roster.Cluster.Tunnel
import Roster.Scheduler.Accounting

/-!
# What a daemon says about its nodes

`roster info` and `roster node ls` show what the daemon has at a moment, which may lie between any
two locked sections of the scheduler: the jobs that run, and what is free on each node.

`nodes_add_up` : what is shown adds up at every moment, node by node and over all nodes.
-/

namespace Roster

/-- The number of jobs that run. -/
def runningJobs (runs : List WorkflowRun) : ℕ :=
  (allJobs runs).countP fun entry => decide (entry.2.state = .running)

/-- The number of jobs that run on a node. -/
def runningJobsOn (runs : List WorkflowRun) (node : ℕ) : ℕ :=
  (allJobs runs).countP fun entry => decide (entry.2.state = .running) &&
    entry.2.executions.any fun execution => decide (execution.node = node)

/-- This machine's daemon. -/
structure ThisDaemon where
  version : String
  pid : UInt32
  socket : String
  jobsSurviveRestart : Bool
  resources : SystemResources

/-- `handle_info`; `working` is how many jobs its worker runs, and `readings` are those of its
GPUs. -/
def handleInfo (this : ThisDaemon) (working : ℕ) (readings : List Ipc.GpuHealth)
    (daemon : DaemonState) : Ipc.NodeInfo where
  version := this.version
  pid := this.pid
  socket := this.socket
  runningJobs := .ofNat (runningJobs daemon.runs + working)
  jobsSurviveRestart := this.jobsSurviveRestart
  resources := this.resources
  gpuHealth := readings

/-- The readings of a node's GPUs: of this machine now, of another node from its last answer. -/
def nodeReadings (readings : List Ipc.GpuHealth) (node : Node) (health : Health) :
    List Ipc.GpuHealth :=
  match node.ssh with
  | none => readings
  | some _ => (health.info.map Ipc.NodeInfo.gpuHealth).getD []

/-- One node in `handle_nodes`. -/
def nodeStatus (daemon : DaemonState) (readings : List Ipc.GpuHealth) (index : ℕ) (node : Node)
    (health : Health) : Exec Ipc.NodeStatus := do
  let pool ← Exec.index daemon.pools index
  return {
    name := node.name
    ssh := node.ssh
    online := health.state.isOnline
    state := health.state.text
    since := health.since
    runningJobs := .ofNat (runningJobsOn daemon.runs index)
    total := pool.total
    freeCpu := pool.availableCpu
    freeMemoryMb := pool.availableMemoryMb
    freeVramMb := pool.availableVramMb
    gpuHealth := nodeReadings readings node health }

/-- `handle_nodes`; `health` is each node's record. -/
def handleNodes (cfg : Config) (daemon : DaemonState) (readings : List Ipc.GpuHealth)
    (health : ℕ → Health) : Exec (List Ipc.NodeStatus) :=
  cfg.nodes.zipIdx.mapM fun (node, index) => nodeStatus daemon readings index node (health index)

/-! ### Jobs by node -/

/-- A job that runs is counted on the node of its execution. -/
theorem runningJobsOn_eq {s : SchedulerState} (h : JobsInv s) (node : ℕ) :
    runningJobsOn s.daemon.runs node = (runningOn s.daemon.runs node).length := by
  have hentries : ∀ entries : List (String × JobInstance), entries ⊆ allJobs s.daemon.runs →
      (entries.countP fun entry => decide (entry.2.state = .running) &&
        entry.2.executions.any fun execution => decide (execution.node = node)) =
      (((entries.filter fun entry => decide (entry.2.state = .running)).flatMap fun entry =>
        entry.2.executions).filter fun execution => decide (execution.node = node)).length := by
    intro entries hsub
    induction entries with
    | nil => rfl
    | cons entry entries ih =>
      rw [List.cons_subset] at hsub
      rw [List.countP_cons, ih hsub.2, List.filter_cons]
      by_cases hrunning : entry.2.state = .running
      · obtain ⟨execution, -, hexecution, -⟩ :=
          (h.holds _ _ (h.keys.findJob hsub.1)).running hrunning
        by_cases hnode : execution.node = node <;> simp [hrunning, hexecution, hnode, Nat.add_comm]
      · simp [hrunning]
  exact hentries _ (List.Subset.refl _)

/-- Every job that runs is on one of the nodes. -/
theorem sum_runningJobsOn {s : SchedulerState} (h : JobsInv s) {n : ℕ}
    (hnode : ∀ key job, findJob s.daemon.runs key = some job → ∀ execution ∈ job.executions,
      execution.node < n) :
    ∑ node ∈ Finset.range n, runningJobsOn s.daemon.runs node = runningJobs s.daemon.runs := by
  have hentries : ∀ entries : List (String × JobInstance), entries ⊆ allJobs s.daemon.runs →
      (∑ node ∈ Finset.range n, entries.countP fun entry =>
        decide (entry.2.state = .running) && entry.2.executions.any fun execution =>
          decide (execution.node = node)) =
      entries.countP fun entry => decide (entry.2.state = .running) := by
    intro entries hsub
    induction entries with
    | nil => simp
    | cons entry entries ih =>
      rw [List.cons_subset] at hsub
      have hjob := h.keys.findJob hsub.1
      simp only [List.countP_cons, Finset.sum_add_distrib, ih hsub.2]
      congr 1
      by_cases hrunning : entry.2.state = .running
      · obtain ⟨execution, -, hexecution, -⟩ := (h.holds _ _ hjob).running hrunning
        have hlt := hnode _ _ hjob execution (by simp [hexecution])
        simp [hrunning, hexecution, hlt]
      · simp [hrunning]
  exact hentries _ (List.Subset.refl _)

/-- What is out on a node: the executions of jobs that run, the qualifications, and what the
section under way holds. -/
theorem SchedulerState.heldOn_eq {s : SchedulerState} (h : JobsInv s) (node : ℕ) :
    heldOn node s.held = ↑((runningOn s.daemon.runs node).map Execution.allocation) +
      (↑((qualifyingOn s.checks node).map Qualification.allocation) +
        heldOn node s.phase.held) := by
  rw [h.runningOn, SchedulerState.held, heldOn_add, heldOn_add, runsHeld_eq, GpuChecks.held,
    heldOn_map, heldOn_map]
  rfl

/-! ### What is shown -/

/-- The status of a node adds up with what the scheduler has. -/
structure Ipc.NodeStatus.AddsUp (s : SchedulerState) (node : ℕ) (status : Ipc.NodeStatus) :
    Prop where
  running : status.runningJobs = .ofNat (runningOn s.daemon.runs node).length
  cpu : status.freeCpu.toNat +
      ((runningOn s.daemon.runs node).map fun execution => execution.allocation.cpu.toNat).sum +
      ((heldOn node s.phase.held).map fun alloc => alloc.cpu.toNat).sum =
    status.total.cpuCores.toNat
  memory : status.freeMemoryMb.toNat +
      ((runningOn s.daemon.runs node).map fun execution =>
        execution.allocation.memoryMb.toNat).sum +
      ((heldOn node s.phase.held).map fun alloc => alloc.memoryMb.toNat).sum =
    status.total.memoryMb.toNat
  /-- A card is free and nobody's, or booked and somebody's. -/
  card : ∀ i gpu, status.total.gpus[i]? = some gpu → gpu.vramMb ≠ 0 →
    let holders := (runningOn s.daemon.runs node).countP (·.allocation.holds i) +
      (qualifyingOn s.checks node).countP (·.allocation.holds i) +
      (heldOn node s.phase.held).countP (·.holds i)
    (status.freeVramMb[i]? = some gpu.vramMb ∧ holders = 0) ∨
      (status.freeVramMb[i]? = some 0 ∧ holders = 1)

/-- The amounts of the qualifications on a node are those of cards only. -/
theorem CardsOnly.sum_qualifyingOn {s : SchedulerState} (h : CardsOnly s) (node : ℕ)
    (amount : Allocation → ℕ) (hamount : ∀ alloc : Allocation, alloc.CardOnly → amount alloc = 0) :
    ((qualifyingOn s.checks node).map fun qualification =>
      amount qualification.allocation).sum = 0 :=
  List.sum_eq_zero fun n hn => by
    obtain ⟨qualification, hmem, rfl⟩ := List.mem_map.1 hn
    exact hamount _ (h.qualifying qualification (List.mem_filter.1 hmem).1)

theorem nodeStatus_addsUp {cfg : Config} {inventories : List SystemResources} {s : SchedulerState}
    (hinv : AccountsInv cfg inventories s) (hcards : CardsOnly s) (readings : List Ipc.GpuHealth)
    (health : Health) (node : Node) {index : ℕ} (hnode : index < cfg.nodes.length) :
    ∃ status, nodeStatus s.daemon readings index node health = .ok status ∧
      status.name = node.name ∧ inventories[index]? = some status.total ∧
      status.runningJobs = .ofNat (runningJobsOn s.daemon.runs index) ∧ status.AddsUp s index := by
  have hlt : index < s.daemon.pools.length := hinv.length_pools ▸ hnode
  have hpool := List.getElem?_eq_getElem hlt
  have hacc := hinv.accounts.accounts index _ hpool
  rw [SchedulerState.heldOn_eq hinv.toJobsInv] at hacc
  refine ⟨_, by rw [nodeStatus, Exec.index_eq_ok.2 hpool, Exec.ok_bind]; rfl, rfl, ?_, rfl, ?_⟩
  · rw [← hinv.accounts.totals, List.getElem?_map, hpool, Option.map_some]
  refine ⟨congrArg UInt64.ofNat (runningJobsOn_eq hinv.toJobsInv index), ?_, ?_, ?_⟩
  · have hcpu := hacc.cpu
    have hqual := hcards.sum_qualifyingOn index (fun alloc => alloc.cpu.toNat)
      fun alloc h => by rw [h.1]; rfl
    simpa [Function.comp_def, hqual, Nat.add_assoc] using hcpu
  · have hmemory := hacc.memory
    have hqual := hcards.sum_qualifyingOn index (fun alloc => alloc.memoryMb.toNat)
      fun alloc h => by rw [h.2]; rfl
    simpa [Function.comp_def, hqual, Nat.add_assoc] using hmemory
  · intro i gpu hi hvram
    have hcard := hacc.card hi hvram
    rw [Multiset.countP_add, Multiset.countP_add, Multiset.coe_countP, Multiset.coe_countP,
      List.countP_map, List.countP_map, ← Nat.add_assoc] at hcard
    simpa [Function.comp_def] using hcard

theorem sum_ofNat (l : List ℕ) : (l.map UInt64.ofNat).sum = UInt64.ofNat l.sum := by
  induction l with
  | nil => rfl
  | cons n l ih => rw [List.map_cons, List.sum_cons, List.sum_cons, ih, UInt64.ofNat_add]

/-- **What is shown adds up**, at every moment of every run, also between the sections of a tick:
for each node in order, what is free and what its running jobs and the section under way hold is its
inventory, every card is free and nobody's or booked and exactly one holder's, and the jobs shown on
the nodes are those that `roster info` counts. -/
theorem nodes_add_up {cfg : Config} {inventories : List SystemResources}
    (hnodes : inventories.length = cfg.nodes.length)
    (hindexed : ∀ resources ∈ inventories, resources.Indexed) {s : SchedulerState}
    (h : (scheduler cfg).Reach (.init (inventories.map .new)) s) (this : ThisDaemon) (working : ℕ)
    (readings : List Ipc.GpuHealth) (health : ℕ → Health) :
    ∃ statuses, handleNodes cfg s.daemon readings health = .ok statuses ∧
      statuses.map Ipc.NodeStatus.name = cfg.nodes.map Node.name ∧
      statuses.map Ipc.NodeStatus.total = inventories ∧
      (∀ node (status : Ipc.NodeStatus), statuses[node]? = some status → status.AddsUp s node) ∧
      (handleInfo this working readings s.daemon).runningJobs =
        (statuses.map Ipc.NodeStatus.runningJobs).sum + .ofNat working := by
  have hinv := AccountsInv.reach hnodes hindexed h
  have hentry : ∀ entry ∈ cfg.nodes.zipIdx, entry.2 < cfg.nodes.length := fun entry hmem =>
    (List.getElem?_eq_some_iff.1 (List.mk_mem_zipIdx_iff_getElem?.1 hmem)).1
  obtain ⟨statuses, hok, hlen, hstatus⟩ := Exec.mapM_total fun entry hmem =>
    nodeStatus_addsUp hinv (CardsOnly.reach h) readings (health entry.2) entry.1
      (hentry entry hmem)
  rw [List.length_zipIdx] at hlen
  have hone : ∀ (index : ℕ) (hlt : index < statuses.length),
      statuses[index].name = cfg.nodes[index].name ∧
        inventories[index]? = some statuses[index].total ∧
        statuses[index].runningJobs = .ofNat (runningJobsOn s.daemon.runs index) ∧
        statuses[index].AddsUp s index := fun index hlt =>
    hstatus index (cfg.nodes[index], index) statuses[index]
      (by simp [hlen ▸ hlt]) (List.getElem?_eq_getElem hlt)
  have hrunning : statuses.map Ipc.NodeStatus.runningJobs =
      ((List.range cfg.nodes.length).map (runningJobsOn s.daemon.runs)).map UInt64.ofNat :=
    List.ext_getElem (by simp [hlen]) fun index hlt _ => by
      rw [List.length_map] at hlt
      simpa using (hone index hlt).2.2.1
  refine ⟨statuses, hok, ?_, ?_, fun index status hat => ?_, ?_⟩
  · refine List.ext_getElem (by simp [hlen]) fun index hlt _ => ?_
    rw [List.length_map] at hlt
    simpa using (hone index hlt).1
  · refine List.ext_getElem (by simp [hlen, hnodes]) fun index hlt hlt' => ?_
    rw [List.length_map] at hlt
    have htotal := (hone index hlt).2.1
    rw [List.getElem?_eq_getElem hlt', Option.some.injEq] at htotal
    simpa using htotal.symm
  · obtain ⟨hlt, rfl⟩ := List.getElem?_eq_some_iff.1 hat
    exact (hone index hlt).2.2.2
  · have hsum : ((List.range cfg.nodes.length).map (runningJobsOn s.daemon.runs)).sum =
        runningJobs s.daemon.runs := sum_runningJobsOn hinv.toJobsInv fun _ _ => hinv.node_lt
    rw [hrunning, sum_ofNat, hsum, handleInfo, UInt64.ofNat_add]

/-- While a job has the one card of a machine, the status of that machine says so. -/
theorem givesCard_addsUp : ∃ s status,
    (scheduler oneMachine).Reach (.init [.new oneCard]) s ∧
      handleNodes oneMachine s.daemon [] (fun _ => ⟨.online, 0, none⟩) = .ok [status] ∧
      status.runningJobs + 0 = 1 ∧ status.AddsUp s 0 := by
  have hrun : ((SchedulerState.run oneMachine (.init [.new oneCard]) givesCard).map
      fun s => runningJobs s.daemon.runs) = some 1 := by decide
  obtain ⟨s, hs, hcount⟩ := Option.map_eq_some_iff.1 hrun
  have hreach := SchedulerState.reach_of_run hs
  have hnodes : [oneCard].length = oneMachine.nodes.length := rfl
  obtain ⟨statuses, hok, hnames, -, hadds, hsum⟩ := nodes_add_up hnodes (by decide) hreach
    ⟨"0.1.0", 7, "/r.socket", false, oneCard⟩ 0 [] fun _ => ⟨.online, 0, none⟩
  obtain ⟨status, rfl, -⟩ := List.map_eq_singleton_iff.1 (hnames : _ = ["local"])
  rw [handleInfo, hcount] at hsum
  refine ⟨s, status, hreach, hok, ?_, hadds 0 status rfl⟩
  simpa using hsum.symm

end Roster
