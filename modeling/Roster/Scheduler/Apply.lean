import Roster.Scheduler.Find
import Roster.Scheduler.GpuCheck
import Roster.Scheduler.Tick

/-!
# What the sections of a tick do

One inversion for each section that decides or applies something: which jobs `admitQueued` places
(`Admitted`), what `applyLaunch` and `applyPoll` do with one result (`LaunchApplied`,
`PollApplied`), and that flushes and GPU checks leave the runs alone.
-/

namespace Roster

/-! ### All jobs -/

theorem mem_allJobs {runs : List WorkflowRun} {entry : String × JobInstance} :
    entry ∈ allJobs runs ↔ ∃ run ∈ runs, run.runId = entry.1 ∧ entry.2 ∈ run.jobs := by
  simp only [allJobs, List.mem_flatMap, List.mem_map]
  constructor
  · rintro ⟨run, hrun, job, hjob, rfl⟩; exact ⟨run, hrun, rfl, hjob⟩
  · rintro ⟨run, hrun, hid, hjob⟩; exact ⟨run, hrun, entry.2, hjob, Prod.ext hid rfl⟩

/-- Runs and jobs have distinct ids. -/
structure KeysNodup (runs : List WorkflowRun) : Prop where
  runIds : (runs.map WorkflowRun.runId).Nodup
  jobIds : ∀ run ∈ runs, (run.jobs.map JobInstance.jobId).Nodup

theorem KeysNodup.findJob {runs : List WorkflowRun} (h : KeysNodup runs)
    {entry : String × JobInstance} (hentry : entry ∈ allJobs runs) :
    findJob runs (entry.1, entry.2.jobId) = some entry.2 := by
  obtain ⟨run, hrun, hid, hjob⟩ := mem_allJobs.1 hentry
  exact findJob_eq_some.2 ⟨run, (Keyed.get?_eq_some h.runIds).2 ⟨hrun, hid⟩,
    Keyed.get?_of_mem (h.jobIds run hrun) hjob⟩

/-- No key occurs twice. -/
theorem KeysNodup.nodup {runs : List WorkflowRun} (h : KeysNodup runs) :
    ((allJobs runs).map fun entry => ((entry.1, entry.2.jobId) : JobKey)).Nodup := by
  obtain ⟨hruns, hjobs⟩ := h
  induction runs with
  | nil => exact List.nodup_nil
  | cons run runs ih =>
    rw [List.map_cons, List.nodup_cons] at hruns
    rw [List.forall_mem_cons] at hjobs
    rw [allJobs, List.flatMap_cons, List.map_append, List.nodup_append]
    refine ⟨?_, ih hruns.2 hjobs.2, ?_⟩
    · rw [List.map_map]
      exact List.Nodup.of_map Prod.snd (by rw [List.map_map]; exact hjobs.1)
    · rintro a ha b hb rfl
      obtain ⟨entry, hentry, rfl⟩ := List.mem_map.1 ha
      obtain ⟨job, -, rfl⟩ := List.mem_map.1 hentry
      obtain ⟨other, hother, heq⟩ := List.mem_map.1 hb
      obtain ⟨run', hrun', hid, -⟩ := mem_allJobs.1 hother
      exact hruns.1 (List.mem_map.2 ⟨run', hrun', hid.trans (congrArg Prod.fst heq)⟩)

/-! ### Placing jobs -/

/-- Which of the jobs were placed, one after the other, and the pools after that. -/
inductive Admitted (online : List Bool) :
    List (String × JobInstance) → List ResourcePool → List AdmitTask → List ResourcePool → Prop
  | nil (pools : List ResourcePool) : Admitted online [] pools [] pools
  | wait {entry entries pools tasks pools'} : Admitted online entries pools tasks pools' →
      Admitted online (entry :: entries) pools tasks pools'
  | place {runId job entries pools mid tasks pools' option node alloc} : job.state = .queued →
      job.rejectedBy node = false → option ∈ job.spec.resources.gpuOptions →
      online[node]? = some true →
      PlacedOn pools (online.mapIdx fun node up => up && !job.rejectedBy node) option node alloc
        mid →
      Admitted online entries mid tasks pools' →
      Admitted online ((runId, job) :: entries) pools
        (⟨runId, job, [(node, alloc)]⟩ :: tasks) pools'

theorem admitJobs_eq_ok {online : List Bool} {entries : List (String × JobInstance)}
    {acc : List AdmitTask × List ResourcePool} {tasks : List AdmitTask}
    {pools' : List ResourcePool}
    (h : entries.foldlM (admitJob online) acc = .ok (tasks, pools')) :
    ∃ new, tasks = acc.1 ++ new ∧ Admitted online entries acc.2 new pools' := by
  induction entries generalizing acc with
  | nil =>
    rw [List.foldlM_nil, Exec.pure_eq_ok] at h
    subst h
    exact ⟨[], by simp, .nil _⟩
  | cons entry entries ih =>
    rw [List.foldlM_cons, Exec.bind_eq_ok] at h
    obtain ⟨mid, hmid, hrest⟩ := h
    obtain ⟨new, rfl, hnew⟩ := ih hrest
    unfold admitJob at hmid
    split at hmid
    · obtain rfl := Except.ok.inj hmid
      exact ⟨new, rfl, .wait hnew⟩
    · next hqueued =>
      obtain ⟨⟨placed, pools''⟩, hplace, hmid⟩ := Exec.bind_eq_ok.1 hmid
      rcases place_single_eq_ok hplace with ⟨rfl, rfl⟩ |
        ⟨node, alloc, rfl, option, hoption, hplaced⟩
      · obtain rfl := Exec.pure_eq_ok.1 hmid
        exact ⟨new, rfl, .wait hnew⟩
      · obtain rfl := Exec.pure_eq_ok.1 hmid
        have hup := hplaced.online
        rw [List.getElem?_mapIdx, Option.map_eq_some_iff] at hup
        obtain ⟨up, hup, hfree⟩ := hup
        rw [Bool.and_eq_true, Bool.not_eq_true'] at hfree
        exact ⟨⟨entry.1, entry.2, [(node, alloc)]⟩ :: new, by simp,
          .place (not_ne_iff.1 hqueued) hfree.2 hoption (hup.trans (by rw [hfree.1])) hplaced
            hnew⟩

theorem admitQueued_eq_ok {runs : List WorkflowRun} {pools pools' : List ResourcePool}
    {online : List Bool} {tasks : List AdmitTask}
    (h : admitQueued runs pools online = .ok (tasks, pools')) :
    Admitted online (allJobs runs) pools tasks pools' := by
  obtain ⟨new, rfl, hnew⟩ := admitJobs_eq_ok h
  exact hnew

namespace Admitted

variable {online : List Bool} {entries : List (String × JobInstance)}
  {pools pools' : List ResourcePool} {tasks : List AdmitTask}

/-- The tasks are some of the jobs, in their order. -/
theorem sublist (h : Admitted online entries pools tasks pools') :
    (tasks.map fun task => (task.runId, task.jobInstance)).Sublist entries := by
  induction h with
  | nil => exact .slnil
  | wait _ ih => exact ih.cons _
  | place _ _ _ _ _ _ ih => exact ih.cons_cons _

/-- Each is a Queued job, placed on one node. -/
theorem single (h : Admitted online entries pools tasks pools') :
    ∀ task ∈ tasks, task.jobInstance.state = .queued ∧ ∃ node alloc,
      task.placement = [(node, alloc)] := by
  induction h with
  | nil => simp
  | wait _ ih => exact ih
  | place hqueued _ _ _ _ _ ih =>
    exact List.forall_mem_cons.2 ⟨⟨hqueued, _, _, rfl⟩, ih⟩

end Admitted

/-- What the launch of a job with one member came to. -/
theorem AdmitTask.outcome_single {task : AdmitTask} {node : ℕ} {alloc : Allocation}
    (hplacement : task.placement = [(node, alloc)])
    {results : List (Except ExecutorError JobHandle)}
    (hlen : results.length = task.placement.length) :
    ∃ launched : Except ExecutorError JobHandle, results = [launched] ∧
      task.outcome results = ⟨task.runId, task.jobInstance.jobId,
        [⟨node, alloc, launched.toOption⟩], launched.map fun _ => ()⟩ := by
  rw [hplacement] at hlen
  obtain ⟨launched, rfl⟩ := List.length_eq_one_iff.1 hlen
  refine ⟨launched, rfl, ?_⟩
  rw [AdmitTask.outcome, hplacement]
  cases launched <;> rfl

/-! ### Applying launches -/

/-- What applying one launch did. -/
inductive LaunchApplied (cfg : Config) (now : DateTime) (acc : Applied)
    (outcome : LaunchOutcome) : Applied → Prop
  | returned {pools} : (findJob acc.daemon.runs outcome.key = none ∨
        ∃ reason, outcome.result = .error (.unreachable reason)) →
      releaseExecutions acc.daemon.pools outcome.executions = .ok pools →
      LaunchApplied cfg now acc outcome
        { acc with daemon := { acc.daemon with pools := pools } }
  | started {job execution node} : findJob acc.daemon.runs outcome.key = some job →
      outcome.result = .ok () → outcome.executions[0]? = some execution →
      cfg.nodes[execution.node]? = some node →
      LaunchApplied cfg now acc outcome {
        daemon := { acc.daemon with
          runs := updateJob acc.daemon.runs outcome.key fun job => job.started outcome.executions
            (logPath cfg.home node outcome.runId outcome.jobId) now }
        toWrite := acc.toWrite ++ [outcome.key] }
  | turnedDown {job reason execution reasons pools job'} :
      findJob acc.daemon.runs outcome.key = some job →
      outcome.result = .error (.rejected reason) → outcome.executions[0]? = some execution →
      releaseExecutions acc.daemon.pools outcome.executions = .ok pools →
      job' = (if couldGoElsewhere pools (job.turnedDown execution.node reason reasons)
        then job.turnedDown execution.node reason reasons
        else (job.turnedDown execution.node reason reasons).fail now) →
      LaunchApplied cfg now acc outcome {
        daemon := { acc.daemon with
          runs := updateJob acc.daemon.runs outcome.key fun _ => job'
          pools := pools }
        toWrite := acc.toWrite ++ [outcome.key] }
  | failed {job error pools} : findJob acc.daemon.runs outcome.key = some job →
      outcome.result = .error error → (∀ reason, error ≠ .unreachable reason) →
      (∀ reason, error ≠ .rejected reason) →
      releaseExecutions acc.daemon.pools outcome.executions = .ok pools →
      LaunchApplied cfg now acc outcome {
        daemon := { acc.daemon with
          runs := updateJob acc.daemon.runs outcome.key fun job =>
            addReason (job.fail now) error.toString
          pools := pools }
        toWrite := acc.toWrite ++ [outcome.key] }

theorem applyLaunch_eq_ok {cfg : Config} {now : DateTime} {acc acc' : Applied}
    {outcome : LaunchOutcome} (h : applyLaunch cfg now acc outcome = .ok acc') :
    LaunchApplied cfg now acc outcome acc' := by
  unfold applyLaunch at h
  split at h
  · next hnone =>
    simp only [Exec.bind_eq_ok, Exec.pure_eq_ok] at h
    obtain ⟨pools, hrel, rfl⟩ := h
    exact .returned (.inl hnone) hrel
  next job hjob =>
  split at h
  · next hresult =>
    simp only [Exec.bind_eq_ok, Exec.pure_eq_ok, Exec.index_eq_ok] at h
    obtain ⟨execution, hexec, node, hnode, rfl⟩ := h
    exact .started hjob hresult hexec hnode
  · next reason hresult =>
    simp only [Exec.bind_eq_ok, Exec.pure_eq_ok] at h
    obtain ⟨pools, hrel, rfl⟩ := h
    exact .returned (.inr ⟨reason, hresult⟩) hrel
  · next reason hresult =>
    simp only [Exec.bind_eq_ok, Exec.pure_eq_ok, Exec.index_eq_ok] at h
    obtain ⟨execution, hexec, pools, hrel, reasons, -, rfl⟩ := h
    exact .turnedDown hjob hresult hexec hrel rfl
  · next error hunreachable hrejected hresult =>
    simp only [Exec.bind_eq_ok, Exec.pure_eq_ok] at h
    obtain ⟨pools, hrel, rfl⟩ := h
    exact .failed hjob hresult (fun _ h => hunreachable _ h) (fun _ h => hrejected _ h) hrel

/-! ### Applying polls -/

/-- What applying one poll did. -/
inductive PollApplied (now : DateTime) (acc : Applied) (entry : PollEntry) : Applied → Prop
  | same : (findJob acc.daemon.runs entry.key = none ∨ entry.result = .ok .running ∨
        ∃ reason, entry.result = .error (.unreachable reason)) →
      PollApplied now acc entry acc
  | failed {job error pools} : findJob acc.daemon.runs entry.key = some job →
      entry.result = .error error → (∀ reason, error ≠ .unreachable reason) →
      releaseExecutions acc.daemon.pools job.executions = .ok pools →
      PollApplied now acc entry {
        daemon := { acc.daemon with
          runs := updateJob acc.daemon.runs entry.key fun job => job.pollFailed error now
          pools := pools }
        toWrite := acc.toWrite ++ [entry.key] }
  | exited {job exitCode pools} : findJob acc.daemon.runs entry.key = some job →
      entry.result = .ok (.exited exitCode) →
      releaseExecutions acc.daemon.pools job.executions = .ok pools →
      PollApplied now acc entry {
        daemon := { acc.daemon with
          runs := updateJob acc.daemon.runs entry.key fun job =>
            job.exited exitCode entry.cancelling entry.tail now
          pools := pools
          requalify := if exitCode = -1 ∧ entry.cancelling = false then
            extendSet acc.daemon.requalify (requalifyOf job.executions)
            else acc.daemon.requalify }
        toWrite := acc.toWrite ++ [entry.key] }

theorem applyPoll_eq_ok {now : DateTime} {acc acc' : Applied} {entry : PollEntry}
    (h : applyPoll now acc entry = .ok acc') : PollApplied now acc entry acc' := by
  unfold applyPoll at h
  split at h
  · next hnone => obtain rfl := Except.ok.inj h; exact .same (.inl hnone)
  next job hjob =>
  split at h
  · next reason hresult =>
    obtain rfl := Except.ok.inj h
    exact .same (.inr (.inr ⟨reason, hresult⟩))
  · next error hunreachable hresult =>
    simp only [Exec.bind_eq_ok, Exec.pure_eq_ok] at h
    obtain ⟨pools, hrel, rfl⟩ := h
    exact .failed hjob hresult (fun _ h => hunreachable _ h) hrel
  · next hresult => obtain rfl := Except.ok.inj h; exact .same (.inr (.inl hresult))
  · next exitCode hresult =>
    simp only [Exec.bind_eq_ok, Exec.pure_eq_ok] at h
    obtain ⟨pools, hrel, rfl⟩ := h
    exact .exited hjob hresult hrel

/-! ### Sections that leave the runs alone -/

theorem flushTransition_eq_ok {cfg : Config} {daemon daemon' : DaemonState} {key : JobKey}
    {written : Bool} {emittedAt : ℕ}
    (h : flushTransition cfg daemon key written emittedAt = .ok daemon') :
    ∃ store events, daemon' = { daemon with store := store, events := events } := by
  unfold flushTransition at h
  split at h
  · obtain rfl := Except.ok.inj h; exact ⟨_, _, rfl⟩
  split at h
  · obtain rfl := Except.ok.inj h; exact ⟨_, _, rfl⟩
  simp only [Exec.bind_eq_ok, Exec.pure_eq_ok] at h
  obtain ⟨node, -, rfl⟩ := h
  exact ⟨_, _, rfl⟩

theorem blockCard_eq_ok {pool pool' : ResourcePool} {health : Option GpuHealth} {gpu : GpuInfo} :
    blockCard pool health gpu = .ok pool' ↔ gpu.index.toNat < pool.blocked.length ∧
      ∃ free, pool.availableVramMb[gpu.index.toNat]? = some free ∧
        pool' = { pool with
          blocked := pool.blocked.set gpu.index.toNat
            (health.bind fun health => health.blocked (decide (free = gpu.vramMb))).isSome } := by
  simp only [blockCard, Exec.bind_eq_ok, Exec.index_eq_ok, Exec.update_eq_ok, Except.ok.injEq,
    Exec.pure_eq_ok]
  constructor
  · rintro ⟨free, hfree, _, ⟨flag, _, hflag, rfl, rfl⟩, rfl⟩
    exact ⟨(List.getElem?_eq_some_iff.1 hflag).1, free, hfree, rfl⟩
  · rintro ⟨hlt, free, hfree, rfl⟩
    exact ⟨free, hfree, _, ⟨_, _, List.getElem?_eq_getElem hlt, rfl, rfl⟩, rfl⟩

/-- What the check did with one card: it set its flag, and may have reserved it for a test. -/
inductive CardChecked (node : ℕ) (reading : List GpuHealth) (check : CardCheck) (gpu : GpuInfo) :
    CardCheck → Prop
  | flagged {pool} : blockCard check.pool (readingOf reading gpu) gpu = .ok pool →
      CardChecked node reading check gpu { check with pool := pool }
  | reserved {pool pool' card requalify retest} :
      blockCard check.pool (readingOf reading gpu) gpu = .ok pool → card.index = gpu.index →
      ResourcePool.Reserved pool [card] ⟨0, 0, [card.whole]⟩ pool' →
      CardChecked node reading check gpu
        ⟨pool', requalify, check.toQualify ++ [⟨node, gpu, retest, ⟨0, 0, [card.whole]⟩⟩]⟩

theorem checkCard_eq_ok {node : ℕ} {view : NodeView} {reading : List GpuHealth}
    {lastQualified : List ((ℕ × UInt32) × Instant)} {utc : DateTime} {now : Instant}
    {check check' : CardCheck} {gpu : GpuInfo}
    (h : checkCard node view reading lastQualified utc now check gpu = .ok check') :
    CardChecked node reading check gpu check' := by
  unfold checkCard at h
  obtain ⟨pool, hblock, h⟩ := Exec.bind_eq_ok.1 h
  split at h
  · obtain rfl := Exec.pure_eq_ok.1 h; exact .flagged hblock
  split at h
  · obtain ⟨⟨found, pool'⟩, hres, hend⟩ := Exec.bind_eq_ok.1 h
    rcases ResourcePool.reserveCard_eq_ok hres with ⟨rfl, rfl⟩ | ⟨card, hcard, rfl, hreserved⟩
    · obtain rfl := Exec.pure_eq_ok.1 hend; exact .flagged hblock
    · obtain rfl := Exec.pure_eq_ok.1 hend; exact .reserved hblock hcard hreserved
  · obtain rfl := Exec.pure_eq_ok.1 h; exact .flagged hblock

theorem checkNode_eq_ok {node : ℕ} {view : NodeView}
    {lastQualified : List ((ℕ × UInt32) × Instant)} {utc : DateTime} {now : Instant}
    {check check' : CardCheck}
    (h : checkNode node view lastQualified utc now check = .ok check') :
    ((view.online = false ∨ view.reading = none) ∧ check' = { check with
      pool := { check.pool with
        blocked := List.replicate check.pool.blocked.length true } }) ∨
    ∃ reading, view.online = true ∧ view.reading = some reading ∧
      check.pool.total.gpus.foldlM (checkCard node view reading lastQualified utc now) check =
        .ok check' := by
  unfold checkNode at h
  split at h
  · next hnone =>
    refine .inl ⟨?_, (Except.ok.inj h).symm⟩
    rw [Option.filter_eq_none_iff] at hnone
    cases honline : view.online with
    | false => exact .inl rfl
    | true => exact .inr (Option.eq_none_iff_forall_not_mem.2 fun r hr => hnone r hr honline)
  · next reading hsome =>
    rw [Option.filter_eq_some_iff] at hsome
    exact .inr ⟨reading, hsome.2, hsome.1, h⟩

theorem blockGpus_eq_ok {daemon daemon' : DaemonState} {checks : GpuChecks}
    {views : List NodeView} {utc : DateTime} {now : Instant} {toQualify : List ToQualify}
    (h : blockGpus daemon checks views utc now = .ok (daemon', toQualify)) :
    ∃ pools requalify, daemon' = { daemon with pools := pools, requalify := requalify } ∧
      checkNodes checks.lastQualified utc now 0 views (daemon.pools, daemon.requalify, []) =
        .ok (pools, requalify, toQualify) := by
  simp only [blockGpus, Exec.bind_eq_ok, Exec.pure_eq_ok, Prod.mk.injEq, Prod.exists] at h
  obtain ⟨pools, requalify, _, hcheck, rfl, rfl⟩ := h
  exact ⟨pools, requalify, rfl, hcheck⟩

end Roster
