import Roster.Daemon.Capacity
import Roster.Executor.Files
import Roster.Ipc.Protocol

/-!
# The log of a job

`roster logs` is answered by the node that ran the job.  Once a job ended nothing names its node any
more but the path of its log, which `apply_launches` put together on the node of the launch and the
store kept, maybe over several lives of the controller and several versions of nodes.yaml.
`handle_logs` looks for the node that this path is of.

`logs_from_host` : it asks only where a launch of the very job was taken up, and it finds that node
as long as nodes.yaml has one with its ssh target.
-/

namespace Roster

/-- How much of a log `roster logs` prints. -/
def logBytes : ℕ := 2 ^ 20

/-- The node that `handle_logs` asks, from the rows of the run, or why it asks none. -/
def logNode (cfg : Config) (rows : List JobRow) (runId jobId : String) : Except String Node :=
  match Keyed.get? JobRow.jobId rows jobId with
  | none => .error ("job '" ++ jobId ++ "' not found in run '" ++ runId ++ "'")
  | some job =>
    match job.logPath with
    | none => .error "log not available yet"
    | some path =>
      match cfg.nodes.find? fun node => decide (logPath cfg.home node runId jobId = path) with
      | none => .error ("the node that ran it is no longer in nodes.yaml; its log was " ++ path)
      | some node => .ok node

/-- `handle_logs`; `rows` is what `list_jobs` returns, and `tail` what the executor of a node does
for so many bytes. -/
def handleLogs (cfg : Config) (rows : Except String (List JobRow))
    (tail : Node → ℕ → Except ExecutorError String) (runId jobId : String) : Ipc.Response :=
  match rows with
  | .error error => .error ("db error: " ++ error)
  | .ok rows =>
    match logNode cfg rows runId jobId with
    | .error message => .error message
    | .ok node =>
      match tail node logBytes with
      | .ok text => .log text
      | .error error =>
        .error ("can't read the log on " ++ node.name ++ ": " ++ error.toString)

theorem handleLogs_eq_log {cfg : Config} {rows : List JobRow}
    {tail : Node → ℕ → Except ExecutorError String} {runId jobId text : String} :
    handleLogs cfg (.ok rows) tail runId jobId = .log text ↔
      ∃ node, logNode cfg rows runId jobId = .ok node ∧ tail node logBytes = .ok text := by
  unfold handleLogs
  dsimp only
  split
  · next message hmessage => simp [hmessage]
  · next node hnode => split <;> simp [*]

theorem logNode_eq_ok {cfg : Config} {rows : List JobRow} {runId jobId : String} {node : Node} :
    logNode cfg rows runId jobId = .ok node ↔
      ∃ row path, Keyed.get? JobRow.jobId rows jobId = some row ∧ row.logPath = some path ∧
        (cfg.nodes.find? fun node => decide (logPath cfg.home node runId jobId = path)) =
          some node := by
  unfold logNode
  split
  · next hnone => simp [hnone]
  next row hrow =>
  split
  · next hnone => simp [hrow, hnone]
  next path hpath =>
  split <;> simp [*]

/-! ### Paths of logs -/

/-- What is joined to a base comes after a slash, or after nothing. -/
theorem Path.join_ne (base path target : List Char) :
    Path.join base path ≠ target ++ ':' :: path := by
  intro heq
  rw [List.append_cons] at heq
  unfold Path.join at heq
  split at heq
  · have hlen := congrArg List.length heq
    rw [List.length_append, List.length_append, List.length_singleton] at hlen
    omega
  split at heq
  · next hends =>
    have hbase : base = target ++ [':'] := List.append_cancel_right heq
    rcases hends with rfl | hends
    · cases target <;> cases hbase
    · rw [hbase, List.getLast?_concat] at hends
      cases hends
  · rw [List.append_cons] at heq
    have hlast := congrArg List.getLast? (List.append_cancel_right heq)
    rw [List.getLast?_concat, List.getLast?_concat] at hlast
    cases hlast

/-- The path of a job's log tells the ssh target of its node, whatever the homes are. -/
theorem ssh_of_logPath {home home' : String} {node node' : Node} {runId jobId : String}
    (h : logPath home node runId jobId = logPath home' node' runId jobId) :
    node.ssh = node'.ssh := by
  have hlocal : ∀ home target : String,
      jobLogPath home runId jobId ≠ target ++ ":" ++ jobLogRelpath runId jobId := by
    intro home target heq
    have hlist := congrArg String.toList heq
    have hcolon : (":" : String).toList = [':'] := rfl
    rw [jobLogPath, toList_joinPath, String.toList_append, String.toList_append, hcolon,
      ← List.append_cons] at hlist
    exact Path.join_ne _ _ _ hlist
  unfold logPath at h
  cases hssh : node.ssh <;> cases hssh' : node'.ssh <;> simp only [hssh, hssh'] at h
  case none.none => rfl
  case none.some target => exact absurd h (hlocal home target)
  case some.none target => exact absurd h.symm (hlocal home' target)
  case some.some target target' =>
    have hlist := congrArg String.toList h
    simp only [String.toList_append, List.append_cancel_right_eq] at hlist
    exact congrArg some (String.toList_inj.1 hlist)

/-! ### Where logs come from -/

/-- What holds of the rows whose jobs have a log. -/
def RunStore.LogsIn (P : JobKey → String → Prop) (store : RunStore) : Prop :=
  ∀ row ∈ store.jobs, ∀ path, row.logPath = some path → P row.key path

/-- So it does of the jobs, and of the launches that were taken up and are not applied yet. -/
structure LogsIn (P : JobKey → String → Prop) (cfg : Config) (s : SchedulerState) : Prop where
  store : s.daemon.store.LogsIn P
  job : ∀ key job, findJob s.daemon.runs key = some job → ∀ path, job.logPath = some path →
    P key path
  launched : ∀ tasks outcomes, s.phase = .launching tasks outcomes → ∀ outcome ∈ outcomes,
    outcome.result = .ok () → ∀ execution ∈ outcome.executions, ∀ node,
      cfg.nodes[execution.node]? = some node →
        P outcome.key (logPath cfg.home node outcome.runId outcome.jobId)

namespace RunStore.LogsIn

variable {P : JobKey → String → Prop} {store : RunStore}

theorem upsertJob (h : store.LogsIn P) {runId : String} {job : JobInstance}
    (hjob : ∀ path, job.logPath = some path → P (runId, job.jobId) path) (node : Option String) :
    (store.upsertJob runId job node).LogsIn P := by
  intro row hrow path hpath
  rcases Keyed.mem_insert hrow with rfl | hrow
  · exact hjob path hpath
  · exact h row hrow path hpath

theorem interrupt (h : store.LogsIn P) (runId jobId : String) (now : DateTime) :
    (store.interrupt runId jobId now).LogsIn P := by
  intro row hrow path hpath
  rcases Keyed.mem_modify.1 hrow with ⟨before, hbefore, -, rfl⟩ | ⟨hrow, -⟩
  · exact h before hbefore path hpath
  · exact h row hrow path hpath

end RunStore.LogsIn

/-- Only a launch gives a job another log. -/
theorem JobStep.logPath {s : SchedulerState} {key : JobKey} {job job' : JobInstance} {label : Label}
    (h : JobStep s key job label job') (hlabel : ∀ now, label ≠ .launchesApplied now) :
    job'.logPath = job.logPath := by
  cases h with
  | same _ => rfl
  | marked _ => rw [JobInstance.markCancelling]; split <;> rfl
  | queued _ _ _ => rfl
  | skipped _ _ _ => rfl
  | launched _ _ _ _ _ => exact absurd rfl (hlabel _)
  | polled _ _ _ _ hpolled =>
    cases hpolled with
    | exited _ _ =>
      rw [JobInstance.exited]
      split
      · rfl
      split <;> rfl
    | _ => rfl

/-- The log that a launch gives is of the node of its outcome. -/
theorem Step.launchesApplied_log {cfg : Config} {s s' : SchedulerState} {now : DateTime}
    {outcomes : List LaunchOutcome} {outcome : LaunchOutcome} (hinv : KeysInv s)
    (h : Step cfg s (.launchesApplied now) s') (hphase : s.phase = .launching [] outcomes)
    (hmem : outcome ∈ outcomes) {job' : JobInstance}
    (hjob' : findJob s'.daemon.runs outcome.key = some job') {path : String}
    (hpath : job'.logPath = some path) :
    (∃ job, findJob s.daemon.runs outcome.key = some job ∧ job.logPath = some path) ∨
      (outcome.result = .ok () ∧ ∃ execution ∈ outcome.executions, ∃ node,
        cfg.nodes[execution.node]? = some node ∧
          path = logPath cfg.home node outcome.runId outcome.jobId) := by
  obtain ⟨-, acc, acc', job, -, happly, hjob, -, hbefore, hafter⟩ :=
    h.launchesApplied_at hinv hphase hmem
  rw [hafter] at hjob'
  -- an outcome that leaves the log as it was
  have hkept : ∀ {job₁ : JobInstance}, findJob acc'.daemon.runs outcome.key = some job₁ →
      job₁.logPath = job.logPath →
      ∃ job, findJob s.daemon.runs outcome.key = some job ∧ job.logPath = some path := by
    intro job₁ hjob₁ hsame
    obtain rfl := Option.some.inj (hjob₁.symm.trans hjob')
    exact ⟨job, hjob, hsame.symm.trans hpath⟩
  cases applyLaunch_eq_ok happly with
  | returned _ _ => exact .inl (hkept hbefore rfl)
  | @started _ execution node _ hresult hexecution hnode =>
    rw [findJob_updateJob_self (by exact fun _ h => h) hbefore, Option.some.injEq] at hjob'
    rw [← hjob'] at hpath
    exact .inr ⟨hresult, execution, List.mem_of_getElem? hexecution, node, hnode,
      (Option.some.inj hpath).symm⟩
  | turnedDown hjob₀ _ _ _ hturned =>
    obtain rfl := Option.some.inj (hjob₀.symm.trans hbefore)
    have hid := findJob_jobId hbefore
    refine .inl (hkept (findJob_updateJob_self (fun _ _ => ?_) hbefore) ?_)
    · rw [hturned]
      split <;> exact hid
    · rw [hturned]
      split <;> rfl
  | failed _ _ _ _ _ =>
    exact .inl (hkept (findJob_updateJob_self (by exact fun _ h => h) hbefore) rfl)

/-! ### While the controller runs -/

/-- A launch of the job is taken up on a node of the placement. -/
def TakesUp (cfg : Config) (s : SchedulerState) (label : Label) (key : JobKey) (host : Node) :
    Prop :=
  ∃ task tasks outcomes index alloc handle, s.phase = .launching (task :: tasks) outcomes ∧
    label = .launched [.ok handle] ∧ task.key = key ∧ task.placement = [(index, alloc)] ∧
    cfg.nodes[index]? = some host

/-- A flush writes the job of its key, if it is there. -/
theorem flushTransition_job {cfg : Config} {daemon daemon' : DaemonState} {key : JobKey}
    {written : Bool} {emittedAt : ℕ}
    (h : flushTransition cfg daemon key written emittedAt = .ok daemon') :
    daemon'.store = daemon.store ∨ ∃ job node, findJob daemon.runs key = some job ∧
      daemon'.store = daemon.store.upsertJob key.1 job node := by
  cases written with
  | true =>
    rcases (flushTransition_written h).2 with ⟨-, hsame⟩ | hjob
    · exact .inl hsame
    · exact .inr hjob
  | false =>
    unfold flushTransition at h
    split at h
    · exact .inl (Except.ok.inj h ▸ rfl)
    split at h
    · exact .inl (Except.ok.inj h ▸ rfl)
    simp only [Exec.bind_eq_ok, Exec.pure_eq_ok] at h
    obtain ⟨node, -, rfl⟩ := h
    exact .inl rfl

/-- The jobs of a new run have no log. -/
theorem RunStore.LogsIn.submit {P : JobKey → String → Prop} {daemon : DaemonState}
    (h : daemon.store.LogsIn P) {spec : WorkflowSpec} (haccepts : Dag.Accepts spec)
    (runId : String) (now : DateTime) (runWritten : Bool) (jobWritten : String → Bool) :
    (submit daemon runId spec now runWritten jobWritten).store.LogsIn P := by
  unfold Roster.submit
  dsimp only
  refine List.foldlRecOn _ _ ?_ fun store hstore job hmem => ?_
  · split <;> exact h
  · split
    · refine hstore.upsertJob (fun path hpath => ?_) none
      rw [WorkflowRun.jobs_new (Dag.exists_topological haccepts).1] at hmem
      obtain ⟨entry, -, rfl⟩ := List.mem_map.1 hmem
      cases hpath
    · exact hstore

/-- A step adds no log but of the launch it takes up. -/
theorem LogsIn.step {P P' : JobKey → String → Prop} {cfg : Config} {s s' : SchedulerState}
    {label : Label} (hinv : KeysInv s) (hlogs : LogsIn P cfg s)
    (hmono : ∀ key path, P key path → P' key path)
    (htakes : ∀ key host, TakesUp cfg s label key host →
      P' key (logPath cfg.home host key.1 key.2))
    (h : Step cfg s label s') : LogsIn P' cfg s' := by
  have hst := h
  have hjobs : ∀ key job', findJob s'.daemon.runs key = some job' → ∀ path,
      job'.logPath = some path → P key path := by
    intro key job' hjob' path hpath
    cases hjob : findJob s.daemon.runs key with
    | none =>
      obtain ⟨jobSpec, jobSeq, rfl⟩ := h.job_new hinv hjob hjob'
      cases hpath
    | some job =>
      obtain ⟨job₁, hjob₁, hbecame⟩ := h.job hinv hjob
      obtain rfl := Option.some.inj (hjob₁.symm.trans hjob')
      by_cases hlabel : ∀ now, label ≠ .launchesApplied now
      · exact hlogs.job key job hjob path ((hbecame.logPath hlabel).symm.trans hpath)
      cases hbecame with
      | launched hphase hmem hkey _ _ =>
        subst hkey
        rcases h.launchesApplied_log hinv hphase hmem hjob' hpath with
          ⟨before, hbefore, hsame⟩ | ⟨hresult, execution, hexecution, node, hnode, rfl⟩
        · exact hlogs.job _ before hbefore path hsame
        · exact hlogs.launched _ _ hphase _ hmem hresult execution hexecution node hnode
      | same _ => exact hlogs.job key job hjob path hpath
      | _ => exact absurd (fun _ => Label.noConfusion) hlabel
  refine ⟨?_, fun key job' hjob' path hpath => hmono _ _ (hjobs key job' hjob' path hpath), ?_⟩
  · have hrows : s'.daemon.store.LogsIn P := by
      cases h.kind with
      | submit _ haccepts => exact hlogs.store.submit haccepts _ _ _ _
      | @flushed daemon _ key _ _ _ _ _ hok =>
        rcases flushTransition_job hok with hsame | ⟨job, node, hjob, hwritten⟩
        · exact hsame ▸ hlogs.store
        · rw [hwritten]
          refine hlogs.store.upsertJob (fun path hpath => ?_) node
          have hid := findJob_jobId hjob
          rw [hid]
          exact hlogs.job key job hjob path hpath
      | silent hsilent => exact (h.leftToFlush hinv hsilent).store ▸ hlogs.store
    exact fun row hrow path hpath => hmono _ _ (hrows row hrow path hpath)
  · intro tasks' outcomes' hphase' outcome hmem hresult execution hexecution node hnode
    have hold : ∀ tasks, s.phase = .launching tasks outcomes' →
        P' outcome.key (logPath cfg.home node outcome.runId outcome.jobId) := fun tasks hphase =>
      hmono _ _ (hlogs.launched tasks _ hphase outcome hmem hresult execution hexecution node hnode)
    cases h with
    | submit _ _ _ => exact hold _ hphase'
    | cancel _ => exact hold _ hphase'
    | reorderRuns _ => exact hold _ hphase'
    | reorderJobs _ _ => exact hold _ hphase'
    | flushDone next => cases next <;> cases hphase'
    | admitQueued _ _ =>
      cases hphase'
      cases hmem
    | @launched daemon checks task tasks outcomes results hlen =>
      cases hphase'
      rcases List.mem_append.1 hmem with hmem | hmem
      · exact hmono _ _ (hlogs.launched _ _ rfl outcome hmem hresult execution hexecution node
          hnode)
      · obtain ⟨index, alloc, hplacement⟩ := hinv.phase.2.1 task List.mem_cons_self
        obtain ⟨launched, rfl, houtcome⟩ := AdmitTask.outcome_single hplacement hlen
        rw [List.mem_singleton.1 hmem, houtcome] at hresult hexecution ⊢
        cases launched with
        | error _ => cases hresult
        | ok handle =>
          obtain rfl := List.mem_singleton.1 hexecution
          exact htakes _ _ ⟨task, _, outcomes, index, alloc, handle, rfl, rfl, rfl, hplacement,
            hnode⟩
    | _ => cases hphase'

/-! ### Over all lives -/

section TakeBack

variable {P : RunStore → Prop} {cfg : Config} {found : JobKey → Option JobHandle} {now : DateTime}

/-- Taking runs back changes the store by interrupting jobs only. -/
theorem takeBackRun_store
    (hint : ∀ store runId jobId, P store → P (store.interrupt runId jobId now))
    {daemon daemon' : DaemonState} {saved : SavedRun} (hstore : P daemon.store)
    (h : takeBackRun cfg found now daemon saved = .ok daemon') : P daemon'.store := by
  unfold takeBackRun at h
  split at h
  · obtain rfl := Except.ok.inj h
    refine List.foldlRecOn _ _ hstore fun mid hmid row _ => ?_
    split
    · exact hint _ _ _ hmid
    · exact hmid
  · simp only [Exec.bind_eq_ok, Exec.pure_eq_ok] at h
    obtain ⟨taken, htaken, rfl⟩ := h
    refine Exec.foldlM_invariant (P := fun mid : TakingBack => P mid.store) ?_ htaken hstore
    intro mid row mid' _ hmid hok
    unfold takeBackJob at hok
    split at hok
    · exact Except.ok.inj hok ▸ hmid
    dsimp only at hok
    split at hok
    · exact Except.ok.inj hok ▸ hmid
    split at hok
    · simp only [Exec.bind_eq_ok, Exec.pure_eq_ok] at hok
      obtain ⟨pools, -, rfl⟩ := hok
      exact hmid
    · exact Except.ok.inj hok ▸ hint _ _ _ hmid

theorem takeBackRunList_store
    (hint : ∀ store runId jobId, P store → P (store.interrupt runId jobId now))
    {daemon daemon' : DaemonState} {list : List SavedRun} (hstore : P daemon.store)
    (h : list.foldlM (takeBackRun cfg found now) daemon = .ok daemon') : P daemon'.store :=
  Exec.foldlM_invariant (P := fun mid : DaemonState => P mid.store)
    (fun _ _ _ _ hmid hok => takeBackRun_store hint hmid hok) h hstore

theorem takeBackUntil_store
    (hint : ∀ store runId jobId, P store → P (store.interrupt runId jobId now))
    {daemon daemon' : DaemonState} {runs jobs : ℕ} (hstore : P daemon.store)
    (h : takeBackUntil cfg found now daemon runs jobs = .ok daemon') : P daemon'.store := by
  simp only [takeBackUntil, Exec.bind_eq_ok] at h
  obtain ⟨mid, hmid, h⟩ := h
  have hstoreMid := takeBackRunList_store hint hstore hmid
  split at h
  · exact Exec.pure_eq_ok.1 h ▸ hstoreMid
  · exact takeBackRun_store hint hstoreMid h

/-- A job that is taken back has the log of its row. -/
theorem JobInstance.takenBack_logPath {nodes : List Node} {runId : String} (row : JobRow)
    (job : JobInstance) : (job.takenBack nodes found runId now row).logPath = row.logPath := by
  unfold takenBack
  split
  · rfl
  split <;> rfl

/-- So what is taken back has the logs that were stored. -/
theorem RunsRestored.logsIn {P : JobKey → String → Prop} {store : RunStore}
    (hstore : store.Sound) (hlogs : store.LogsIn P) {pools : List ResourcePool}
    {daemon : DaemonState}
    (h : RunsRestored cfg found now store.unfinishedRuns (.new pools store) daemon) (key : JobKey)
    (job : JobInstance) (hjob : findJob daemon.runs key = some job) (path : String)
    (hpath : job.logPath = some path) : P key path := by
  obtain ⟨run, hrun, hj⟩ := findJob_eq_some.1 hjob
  obtain ⟨saved, hsaved, hid, spec, runSeq, jobSeq, created, -, haccepts, hjobs⟩ :=
    h.savedOf hstore hrun
  rw [WorkflowRun.job?, hjobs.get, Option.map_eq_some_iff] at hj
  obtain ⟨fresh, hfresh, rfl⟩ := hj
  obtain ⟨jobSpec, -, seq, -, rfl⟩ := WorkflowRun.job?_new_eq haccepts hfresh
  unfold JobInstance.takenBackBy at hpath
  split at hpath
  · next row hrow =>
    rw [JobInstance.takenBack_logPath] at hpath
    obtain ⟨runRow, -, -, rfl⟩ := RunStore.mem_unfinishedRuns.1 hsaved
    obtain ⟨hmem, hrunId⟩ := List.mem_filter.1 (Keyed.mem_of_get? hrow)
    have hkey : row.key = key := Prod.ext ((of_decide_eq_true hrunId).trans hid)
      ((Keyed.key_of_get? hrow).trans (Keyed.key_of_get? hfresh))
    exact hkey ▸ hlogs row hmem path hpath
  · cases hpath

end TakeBack

/-- The logs of a controller, or of the store it left. -/
def Life.LogsIn (P : JobKey → String → Prop) : Life → Prop
  | .up cfg s => Roster.LogsIn P cfg s
  | .down store => store.LogsIn P

/-- The event is that a launch of the job is taken up. -/
def Life.TakesUp (key : JobKey) (cfg : Config) (host : Node) (event : LifeEvent) (life : Life) :
    Prop :=
  ∃ s label, life = .up cfg s ∧ event = .sched label ∧ Roster.TakesUp cfg s label key host

theorem Life.LogsIn.step {P P' : JobKey → String → Prop} {life life' : Life} {event : LifeEvent}
    (hinv : life.RoomInv) (hlogs : life.LogsIn P) (hmono : ∀ key path, P key path → P' key path)
    (htakes : ∀ key cfg host, life.TakesUp key cfg host event →
      P' key (logPath cfg.home host key.1 key.2))
    (h : LifeStep life event life') : life'.LogsIn P' := by
  have hstoreMono : ∀ {store : RunStore}, store.LogsIn P → store.LogsIn P' :=
    fun hstore row hrow path hpath => hmono _ _ (hstore row hrow path hpath)
  have hint : ∀ (now : DateTime) (store : RunStore) (runId jobId : String), store.LogsIn P →
      (store.interrupt runId jobId now).LogsIn P := fun now _ runId jobId hstore =>
    hstore.interrupt runId jobId now
  cases h with
  | @sched cfg s label s' hperform =>
    exact Roster.LogsIn.step hinv.1 hlogs hmono
      (fun key host htakesUp => htakes key cfg host ⟨s, label, rfl, rfl, htakesUp⟩)
      (step_of_perform hperform)
  | stop => exact hstoreMono hlogs.store
  | @start cfg pools found now store daemon hlen htake =>
    have hsound : store.Sound := hinv
    have hbefore : (DaemonState.new pools store).store.LogsIn P := hlogs
    refine ⟨hstoreMono (takeBackRunList_store (hint now) hbefore htake),
      fun key job hjob path hpath => hmono _ _ ?_, fun _ _ hphase => ?_⟩
    · exact (hsound.restored hlen htake).logsIn hsound hlogs key job hjob path hpath
    · cases hphase
  | @startStop cfg pools found now runs jobs store daemon _ htake =>
    have hbefore : (DaemonState.new pools store).store.LogsIn P := hlogs
    exact hstoreMono (takeBackUntil_store (hint now) hbefore htake)

/-- In some life during these events, started with `cfg`, a launch of the job was taken up on this
node. -/
def Hosted (events : List LifeEvent) (key : JobKey) (cfg : Config) (host : Node) : Prop :=
  ∃ event, lives.PerformsAt (Life.TakesUp key cfg host event) event (.down ⟨[], []⟩) events

/-- The path is that of the log of such a launch. -/
def Logged (events : List LifeEvent) (key : JobKey) (path : String) : Prop :=
  ∃ cfg host, Hosted events key cfg host ∧ path = logPath cfg.home host key.1 key.2

theorem Hosted.append {events : List LifeEvent} {key : JobKey} {cfg : Config} {host : Node}
    (h : Hosted events key cfg host) (more : List LifeEvent) :
    Hosted (events ++ more) key cfg host := by
  obtain ⟨event, before, after, life, rfl, htrace, htakes⟩ := h
  exact ⟨event, before, after ++ more, life, by simp, htrace, htakes⟩

/-- Every log is that of a launch that was taken up. -/
theorem Life.logsIn {events : List LifeEvent} {life : Life}
    (h : lives.Trace (.down ⟨[], []⟩) events life) : life.LogsIn (Logged events) := by
  have hrun : ∀ before events mid life, lives.Trace (.down ⟨[], []⟩) before mid →
      mid.LogsIn (Logged before) → lives.Trace mid events life →
      life.LogsIn (Logged (before ++ events)) := by
    intro before events
    induction events generalizing before with
    | nil =>
      rintro mid life - hlogs ⟨⟩
      rwa [List.append_nil]
    | cons event events ih =>
      intro mid life hbefore hlogs hevents
      obtain ⟨next, hstep, hrest⟩ := LTS.Trace.cons_iff.1 hevents
      have hnext : lives.Trace (.down ⟨[], []⟩) (before ++ [event]) next :=
        LTS.Trace.append_iff.2 ⟨mid, hbefore, .cons hstep (.nil next)⟩
      rw [List.append_cons]
      refine ih _ next life hnext ?_ hrest
      refine hlogs.step (Life.RoomInv.reach hbefore.reach) ?_ ?_ hstep
      · rintro key path ⟨cfg, host, hhosted, rfl⟩
        exact ⟨cfg, host, hhosted.append _, rfl⟩
      · exact fun key cfg host htakes =>
          ⟨cfg, host, ⟨event, before, [], mid, rfl, hbefore, htakes⟩, rfl⟩
  exact hrun [] events _ life (.nil _) (fun row hrow => absurd hrow List.not_mem_nil) h

/-- A controller that runs was started with its nodes. -/
theorem Life.started {events : List LifeEvent} {store : RunStore} {cfg : Config}
    {s : SchedulerState} (h : lives.Trace (.down store) events (.up cfg s)) :
    ∃ pools found now, LifeEvent.start cfg pools found now ∈ events := by
  have hinv : ∀ life', lives.Trace (.down store) events life' → ∀ cfg s, life' = .up cfg s →
      ∃ pools found now, LifeEvent.start cfg pools found now ∈ events := by
    intro life' htrace
    refine htrace.invariant (I := fun life => ∀ cfg s, life = .up cfg s →
      ∃ pools found now, LifeEvent.start cfg pools found now ∈ events)
      (fun cfg s heq => nomatch heq) ?_
    rintro life event next hmem hbefore hstep cfg s rfl
    cases hstep with
    | sched _ => exact hbefore cfg _ rfl
    | start _ _ => exact ⟨_, _, _, hmem⟩
  exact hinv _ h cfg s rfl

/-- The node is one of a life that was started. -/
theorem Hosted.started {events : List LifeEvent} {key : JobKey} {cfg : Config} {host : Node}
    (h : Hosted events key cfg host) :
    (∃ pools found now, LifeEvent.start cfg pools found now ∈ events) ∧ host ∈ cfg.nodes := by
  obtain ⟨event, before, after, life, rfl, htrace, s, label, rfl, -, htakes⟩ := h
  obtain ⟨-, -, -, index, -, -, -, -, -, -, hnode⟩ := htakes
  obtain ⟨pools, found, now, hmem⟩ := Life.started htrace
  exact ⟨⟨pools, found, now, List.mem_append_left _ hmem⟩, List.mem_of_getElem? hnode⟩

/-! ### What is shown -/

/-- The node of a path is one of nodes.yaml with its ssh target, and there is one unless none has
that target. -/
theorem findNode_eq {cfg : Config} {home runId jobId : String} {host : Node} :
    (∀ node, (cfg.nodes.find? fun node => decide (logPath cfg.home node runId jobId =
        logPath home host runId jobId)) = some node → node ∈ cfg.nodes ∧ node.ssh = host.ssh) ∧
      (home = cfg.home → ∀ node ∈ cfg.nodes, node.ssh = host.ssh →
        (cfg.nodes.find? fun node => decide (logPath cfg.home node runId jobId =
          logPath home host runId jobId)).isSome = true) := by
  constructor
  · intro node hfound
    exact ⟨List.mem_of_find?_eq_some hfound,
      ssh_of_logPath (of_decide_eq_true (List.find?_some hfound :))⟩
  · rintro rfl node hmem hssh
    rw [List.find?_isSome]
    refine ⟨node, hmem, decide_eq_true ?_⟩
    rw [logPath, logPath, hssh]

/-- **A log is shown from where its job ran**, over all lives of the controller and whatever
becomes of nodes.yaml between them: what is shown comes from a node with the ssh target of one that
a launch of this very job was taken up on.  As long as HOME stays the same, a job with a log gets it
from the nodes with that target, and if none is left in nodes.yaml the answer says where it was. -/
theorem logs_from_host {events : List LifeEvent} {cfg : Config} {s : SchedulerState}
    (h : lives.Trace (.down ⟨[], []⟩) events (.up cfg s)) {runId jobId : String}
    {rows : List JobRow} (hrows : rows.Perm (s.daemon.store.jobsOf runId))
    (tail : Node → ℕ → Except ExecutorError String) :
    (∀ text, handleLogs cfg (.ok rows) tail runId jobId = .log text →
      ∃ node ∈ cfg.nodes, tail node logBytes = .ok text ∧
        ∃ before host, Hosted events (runId, jobId) before host ∧ host.ssh = node.ssh) ∧
    ((∀ cfg' pools found now, LifeEvent.start cfg' pools found now ∈ events →
        cfg'.home = cfg.home) →
      ∀ row ∈ rows, row.jobId = jobId → ∀ path, row.logPath = some path →
        ∃ before host, Hosted events (runId, jobId) before host ∧
          path = logPath before.home host runId jobId ∧
          (∀ text, (∃ node ∈ cfg.nodes, node.ssh = host.ssh) →
            (∀ node ∈ cfg.nodes, node.ssh = host.ssh → tail node logBytes = .ok text) →
            handleLogs cfg (.ok rows) tail runId jobId = .log text) ∧
          ((∀ node ∈ cfg.nodes, node.ssh ≠ host.ssh) →
            handleLogs cfg (.ok rows) tail runId jobId = .error
              ("the node that ran it is no longer in nodes.yaml; its log was " ++ path))) := by
  have hlogs : LogsIn (Logged events) cfg s := Life.logsIn h
  have hlogged : ∀ row ∈ rows, row.jobId = jobId → ∀ path, row.logPath = some path →
      Logged events (runId, jobId) path := by
    intro row hrow hid path hpath
    obtain ⟨hmem, hrunId⟩ := List.mem_filter.1 (hrows.subset hrow)
    have hkey : row.key = (runId, jobId) := Prod.ext (of_decide_eq_true hrunId) hid
    exact hkey ▸ hlogs.store row hmem path hpath
  constructor
  · intro text htext
    obtain ⟨node, hnode, htail⟩ := handleLogs_eq_log.1 htext
    obtain ⟨row, path, hrow, hpath, hfound⟩ := logNode_eq_ok.1 hnode
    obtain ⟨before, host, hhosted, rfl⟩ :=
      hlogged row (Keyed.mem_of_get? hrow) (Keyed.key_of_get? hrow) path hpath
    obtain ⟨hmem, hssh⟩ := findNode_eq.1 node hfound
    exact ⟨node, hmem, htail, before, host, hhosted, hssh.symm⟩
  · intro hhome row hrow hid path hpath
    obtain ⟨before, host, hhosted, rfl⟩ := hlogged row hrow hid path hpath
    -- the row is the one that is found
    have hget : Keyed.get? JobRow.jobId rows jobId = some row := by
      have hsound : s.daemon.store.Sound := (Life.RoomInv.reach h.reach).2
      have hnodup : (rows.map JobRow.jobId).Nodup := (hrows.map _).nodup_iff.2 <|
        (RunStore.jobsOf_current hsound.jobs ⟨runId, "", 0, none⟩).nodup
      exact hid ▸ Keyed.get?_of_mem hnodup hrow
    refine ⟨before, host, hhosted, rfl, ?_, fun hgone => ?_⟩
    · rintro text ⟨node₀, hmem₀, hssh₀⟩ htail
      obtain ⟨pools, found, now, hstart⟩ := hhosted.started.1
      obtain ⟨node, hfound⟩ := Option.isSome_iff_exists.1 <|
        findNode_eq.2 (hhome before pools found now hstart) node₀ hmem₀ hssh₀
      obtain ⟨hmem, hssh⟩ := findNode_eq.1 node hfound
      exact handleLogs_eq_log.2
        ⟨node, logNode_eq_ok.2 ⟨row, _, hget, hpath, hfound⟩, htail node hmem hssh⟩
    · have hnone : (cfg.nodes.find? fun node => decide (logPath cfg.home node runId jobId =
          logPath before.home host runId jobId)) = none := by
        rw [Option.eq_none_iff_forall_ne_some]
        intro node hfound
        obtain ⟨hmem, hssh⟩ := findNode_eq.1 node hfound
        exact hgone node hmem hssh
      unfold handleLogs logNode
      simp only [hget, hpath, hnone]

/-! ### A run -/

theorem Life.trace_of_run {cfg : Config} {s s' : SchedulerState} {labels : List Label}
    (h : s.run cfg labels = some s') :
    lives.Trace (.up cfg s) (labels.map .sched) (.up cfg s') := by
  induction labels generalizing s with
  | nil => exact Option.some.inj h ▸ .nil _
  | cons label labels ih =>
    obtain ⟨mid, hmid, hrest⟩ := SchedulerState.run_cons.1 h
    exact .cons (.sched hmid) (ih hrest)

/-- The log of the first of two jobs, once it is stored that it runs, is read on this machine. -/
theorem startsFirst_log : ∃ events s, lives.Trace (.down ⟨[], []⟩) events (.up oneMachine s) ∧
    handleLogs oneMachine (.ok (s.daemon.store.jobsOf "r")) (fun _ _ => .ok "epoch 1") "r" "a" =
      .log "epoch 1" := by
  let start := LifeEvent.start oneMachine [.new ⟨4, 8192, []⟩] (fun _ => none) 0
  let labels := startsFirst ++ [.flushed true 4]
  have hrun : ((firstStart.run oneMachine (firstCheck ++ labels)).map fun s =>
      (s.daemon.store.jobsOf "r").any fun row => row.jobId == "a" && row.logPath.isSome) =
        some true := by decide
  obtain ⟨s, hs, hlog⟩ := Option.map_eq_some_iff.1 hrun
  have htrace : lives.Trace (.down ⟨[], []⟩) (start :: (firstCheck ++ labels).map .sched)
      (.up oneMachine s) :=
    .cons (.start rfl (takeBackRuns_nil _ _ _ _ _)) (Life.trace_of_run hs)
  have honly : ∀ cfg' pools found now, LifeEvent.start cfg' pools found now ∈
      start :: (firstCheck ++ labels).map .sched → cfg' = oneMachine := by
    intro cfg' pools found now hmem
    rcases List.mem_cons.1 hmem with heq | hmem
    · exact (LifeEvent.start.inj heq).1
    · obtain ⟨label, -, hlabel⟩ := List.mem_map.1 hmem
      cases hlabel
  obtain ⟨row, hrow, hboth⟩ := List.any_eq_true.1 hlog
  rw [Bool.and_eq_true, beq_iff_eq] at hboth
  obtain ⟨path, hpath⟩ := Option.isSome_iff_exists.1 hboth.2
  obtain ⟨before, host, hhosted, -, hread, -⟩ :=
    (logs_from_host htrace (List.Perm.refl _) fun _ _ => .ok "epoch 1").2
      (fun cfg' pools found now hmem => congrArg Config.home (honly cfg' pools found now hmem))
      row hrow hboth.1 path hpath
  obtain ⟨⟨pools, found, now, hstart⟩, hhost⟩ := hhosted.started
  obtain rfl := honly before pools found now hstart
  exact ⟨_, s, htrace, hread "epoch 1" ⟨host, hhost, rfl⟩ fun _ _ _ => rfl⟩

end Roster
