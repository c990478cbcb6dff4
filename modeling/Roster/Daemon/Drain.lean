import Roster.Daemon.Capacity
import Roster.LTS.Descent
import Roster.Resource.Admission
import Roster.Scheduler.Accounting
import Roster.Scheduler.Unfinished

/-!
# Every tick ends a job

While nothing holds the work up, no tick is in vain: nodes are up, cards are handed out, launches
are decided and jobs exit, and then every tick ends one more job, until all have ended
(`every_tick_ends_one`).  So no two jobs wait for each other, whatever their dependencies, what they
ask for, and which nodes turned them down.

Each section of a tick leaves the next one something to do (`Phase.Promises`): nobody is left to
queue, then nobody to skip, so somebody is placed or runs already, and who runs is polled.  That
somebody is placed is where the accounts come in: with nothing running every pool is as it was at
the start, and what a job waits for fits there (`WaitsForRoom`).
-/

namespace Roster

/-! ### Nothing holds the work up -/

/-- No card is kept out of placement, and none is held by a test. -/
structure CardsOpen (s : SchedulerState) : Prop where
  flags : ∀ pool ∈ s.daemon.pools, true ∉ pool.blocked
  untested : s.checks.qualifying = []

/-- The launch makes the job run, or fail. -/
def launchDecides {α : Type} : Except ExecutorError α → Bool
  | .error (.unreachable _) | .error (.rejected _) => false
  | _ => true

/-- The answer ends the job. -/
def pollEnds : Except ExecutorError PollResult → Bool
  | .ok .running | .error (.unreachable _) => false
  | _ => true

/-- Nothing holds the work up: jobs are placed with every node up and no card kept back, launches
are decided, polls find that jobs have ended, and no run comes in between. -/
def Cooperates (s : SchedulerState) : Label → Prop
  | .submit _ _ _ _ _ _ => False
  | .admitQueued online => (∀ up ∈ online, up = true) ∧ CardsOpen s
  | .launched results => ∀ result ∈ results, launchDecides result = true
  | .polled result _ => pollEnds result = true
  | _ => True

theorem Cooperates.addsNone {s : SchedulerState} {label : Label} (h : Cooperates s label) :
    label.AddsNone := by
  cases label with
  | submit _ _ _ _ _ _ => exact h
  | _ => trivial

/-! ### Somebody is placed -/

section

variable {pools pools' : List ResourcePool} {online : List Bool}

/-- What was not placed, no node would reserve. -/
theorem place_single_refuses {spec : ResourceSpec}
    (h : place pools online [spec] = .ok (none, pools')) :
    ∀ option ∈ spec.gpuOptions, ∀ n, Refuses pools online option n := by
  simp only [place, placeMembers, Exec.bind_eq_ok, Prod.exists] at h
  obtain ⟨member, pools'', hany, h⟩ := h
  rcases reserveAny_first hany with ⟨-, -, hnone⟩ | ⟨node, alloc, option, rfl, -, -⟩
  · exact hnone
  · cases h

/-- If nobody was placed, no node would have reserved what a Queued job asks for. -/
theorem admitJobs_refused {entries : List (String × JobInstance)}
    {acc : List AdmitTask × List ResourcePool}
    (h : entries.foldlM (admitJob online) acc = .ok (acc.1, pools')) :
    ∀ entry ∈ entries, entry.2.state = .queued → ∀ option ∈ entry.2.spec.resources.gpuOptions,
      ∀ n, Refuses acc.2
        (online.mapIdx fun node up => up && !entry.2.rejectedBy node) option n := by
  induction entries generalizing acc with
  | nil => exact fun _ hmem => absurd hmem List.not_mem_nil
  | cons first entries ih =>
    rw [List.foldlM_cons, Exec.bind_eq_ok] at h
    obtain ⟨mid, hmid, hrest⟩ := h
    obtain ⟨new, hnew, -⟩ := admitJobs_eq_ok hrest
    -- the first entry added no task either, so it left the pools alone
    have hsame : mid = acc ∧ (first.2.state = .queued →
        ∀ option ∈ first.2.spec.resources.gpuOptions, ∀ n, Refuses acc.2
          (online.mapIdx fun node up => up && !first.2.rejectedBy node) option n) := by
      unfold admitJob at hmid
      split at hmid
      · next hne => exact ⟨(Except.ok.inj hmid).symm, fun hqueued => absurd hqueued hne⟩
      simp only [Exec.bind_eq_ok, Prod.exists] at hmid
      obtain ⟨placed, pools₁, hplace, hmid⟩ := hmid
      cases placed with
      | none =>
        obtain rfl := Exec.pure_eq_ok.1 hmid
        obtain ⟨-, rfl⟩ | ⟨_, _, hsome, -⟩ := place_single_eq_ok hplace
        · exact ⟨rfl, fun _ => place_single_refuses hplace⟩
        · cases hsome
      | some placement =>
        obtain rfl := Exec.pure_eq_ok.1 hmid
        have hlength := congrArg List.length hnew
        simp only [List.length_append, List.length_singleton] at hlength
        omega
    obtain ⟨rfl, hfirst⟩ := hsame
    exact List.forall_mem_cons.2 ⟨hfirst, ih hrest⟩

end

/-- A pool with nothing out and no card kept back is as it was at the start. -/
theorem Accounts.eq_idle {pool : ResourcePool} (h : Accounts pool 0)
    (hflags : true ∉ pool.blocked) : pool = pool.idle := by
  have hblocked : pool.blocked = List.replicate pool.total.gpus.length false := by
    refine List.eq_replicate_iff.2 ⟨h.flags, fun flag hflag => ?_⟩
    cases flag with
    | false => rfl
    | true => exact absurd hflag hflags
  calc pool = { ResourcePool.new pool.total with blocked := pool.blocked } := h.toBooks.eq_new
    _ = pool.idle := by rw [hblocked]; rfl

/-- Jobs hold nothing while none of them runs. -/
theorem JobsInv.runsHeld_eq_zero {s : SchedulerState} (h : JobsInv s)
    (hidle : ∀ key job, findJob s.daemon.runs key = some job → job.state ≠ .running) :
    runsHeld s.daemon.runs = 0 := by
  have hnone : (allJobs s.daemon.runs).flatMap (fun entry => entry.2.executions) = [] := by
    refine List.flatMap_eq_nil_iff.2 fun entry hentry => ?_
    have hjob := h.keys.findJob hentry
    exact (h.holds _ _ hjob).idle (hidle _ _ hjob)
  rw [runsHeld_eq, hnone]
  rfl

/-- With nothing running and no card kept back, somebody that is Queued is placed. -/
theorem AccountsInv.places {cfg : Config} {inventories : List SystemResources}
    {daemon : DaemonState} {checks : GpuChecks} {online : List Bool} {tasks : List AdmitTask}
    {pools' : List ResourcePool} (hinv : AccountsInv cfg inventories ⟨daemon, checks, .admitting⟩)
    (hroom : WaitsForRoom ⟨daemon, checks, .admitting⟩)
    (hopen : CardsOpen ⟨daemon, checks, .admitting⟩)
    (hidle : ∀ key job, findJob daemon.runs key = some job → job.state ≠ .running)
    {key : JobKey} {job : JobInstance} (hjob : findJob daemon.runs key = some job)
    (hqueued : job.state = .queued) (hlen : online.length = cfg.nodes.length)
    (hup : ∀ up ∈ online, up = true)
    (hok : admitQueued daemon.runs daemon.pools online = .ok (tasks, pools')) : tasks ≠ [] := by
  rintro rfl
  obtain ⟨run, hrun, hj, hri⟩ := hinv.toJobsInv.runOf hjob
  have hgood : run.depBad job = false :=
    WorkflowRun.depBad_of_depsSucceeded (hri.started key.2 job hj (by rw [hqueued]; rfl))
  obtain ⟨node, pool, hpool, hfree, option, hoption, hfits⟩ :=
    hroom key.1 run hrun key.2 job hj (.inr hqueued) hgood
  -- the node's pool has everything, so it would have reserved the option
  have hheld : SchedulerState.held ⟨daemon, checks, .admitting⟩ = 0 := by
    have hruns := hinv.toJobsInv.runsHeld_eq_zero hidle
    have hchecks := hopen.untested
    dsimp only at hruns hchecks
    simp [SchedulerState.held, Phase.held, GpuChecks.held, hruns, hchecks]
  have hacc := hinv.accounts.accounts node pool hpool
  rw [hheld, heldOn_zero] at hacc
  obtain ⟨alloc, pool', hreserves⟩ := hacc.tracked.couldFit_iff.1 hfits
  rw [← hacc.eq_idle (hopen.flags pool (List.mem_of_getElem? hpool))] at hreserves
  have hentry : (key.1, job) ∈ allJobs daemon.runs :=
    mem_allJobs.2 ⟨run, Keyed.mem_of_get? hrun, Keyed.key_of_get? hrun, Keyed.mem_of_get? hj⟩
  have hlt : node < online.length := by
    rw [hlen, ← hinv.length_pools]
    exact (List.getElem?_eq_some_iff.1 hpool).1
  have husable : (online.mapIdx fun node up => up && !job.rejectedBy node)[node]? =
      some true := by
    rw [List.getElem?_mapIdx, List.getElem?_eq_getElem hlt, Option.map_some,
      hup _ (List.getElem_mem hlt), hfree]
    rfl
  have hrefuses := admitJobs_refused hok _ hentry hqueued option hoption node pool hpool husable
  rw [hreserves] at hrefuses
  cases hrefuses

/-! ### What a section leaves to the next -/

/-- What the sections so far have seen to, so that the tick ends a job. -/
def Phase.Promises (work : JobKey → Option (JobState × JobSpec)) : Phase → Prop
  | .flushing _ .cascading | .cascading => NoneReady work
  | .flushing _ .admitting | .admitting => NoneReady work ∧ NoneDoomed work
  | .launching tasks outcomes => (∃ key spec, work key = some (.running, spec)) ∨ tasks ≠ [] ∨
      ∃ outcome ∈ outcomes, launchDecides outcome.result = true
  | .flushing _ .collecting | .collecting => ∃ key spec, work key = some (.running, spec)
  | .polling todo entries => todo ≠ [] ∨ ∃ entry ∈ entries, pollEnds entry.result = true
  | _ => False

section Sections

variable {cfg : Config} {inventories : List SystemResources} {s s' : SchedulerState}
  {label : Label} {daemon : DaemonState} {checks : GpuChecks}

/-- A tick begins with queueing who is ready. -/
theorem noneReady_advancePending {runs : List WorkflowRun} (hkeys : KeysNodup runs)
    (hkeys' : KeysNodup (advancePending runs).1) :
    NoneReady (workIn (advancePending runs).1) := by
  refine (noneReady_iff hkeys').2 fun id run' hrun' => ?_
  have hfind : findRun (advancePending runs).1 id =
      (findRun runs id).map WorkflowRun.advancePending := Keyed.get?_map fun _ _ => rfl
  rw [hfind, Option.map_eq_some_iff] at hrun'
  obtain ⟨run, hrun, rfl⟩ := hrun'
  exact WorkflowRun.toQueue_advancePending (hkeys.jobIds run (Keyed.mem_of_get? hrun))

/-- If nobody is skipped the runs stay, and else a job has ended. -/
theorem Step.cascade_promises (hinv : KeysInv s) {now : DateTime}
    (h : Step cfg s (.cascade now) s') (hready : NoneReady (workIn s.daemon.runs)) :
    (NoneReady (workIn s'.daemon.runs) ∧ NoneDoomed (workIn s'.daemon.runs)) ∨
      (unfinished s'.daemon.runs).length < (unfinished s.daemon.runs).length := by
  have hstep := h
  cases h with
  | @cascade daemon checks _ =>
    by_cases hskip : ∃ run ∈ daemon.runs, run.toSkip ≠ []
    · right
      obtain ⟨run, hrun, hne⟩ := hskip
      obtain ⟨id, hid⟩ := List.exists_mem_of_ne_nil _ hne
      obtain ⟨job, hmem, rfl⟩ := List.mem_map.1 hid
      have hfind : findRun daemon.runs run.runId = some run :=
        (Keyed.get?_eq_some hinv.keys.runIds).2 ⟨hrun, rfl⟩
      have hnodup := hinv.jobIds hfind
      have hj : run.job? job.jobId = some job :=
        Keyed.get?_of_mem hnodup (List.mem_filter.1 hmem).1
      have hwaits := ((WorkflowRun.mem_toSkip hnodup hj).1 hid).1
      have hskipped : findJob (cascadeSkipped daemon.runs now).1 (run.runId, job.jobId) =
          some (job.skip now) := by
        rw [cascadeSkipped, findJob_map (fun _ => by rfl), hfind, Option.bind_some,
          WorkflowRun.cascadeSkipped,
          WorkflowRun.job?_updateAll (f := JobInstance.skip now) (fun _ => rfl) fun _ => rfl, hj,
          Option.map_some, if_pos hid]
      refine hstep.unfinished_lt hinv trivial (findJob_eq_some.2 ⟨run, hfind, hj⟩) ?_ hskipped rfl
      rcases hwaits with hs | hs <;> rw [hs] <;> rfl
    · left
      push Not at hskip
      have hsame : (cascadeSkipped daemon.runs now).1 = daemon.runs := by
        refine (List.map_congr_left fun run hrun => ?_).trans (List.map_id _)
        rw [WorkflowRun.cascadeSkipped, hskip run hrun]
        rfl
      dsimp only
      rw [hsame]
      exact ⟨hready, (noneDoomed_iff hinv.keys).2 fun id run hrun =>
        hskip run (Keyed.mem_of_get? hrun)⟩

/-- With nobody to queue or to skip, somebody runs or is Queued, unless all jobs have ended. -/
theorem JobsInv.someone (hinv : JobsInv s) (hready : NoneReady (workIn s.daemon.runs))
    (hdoomed : NoneDoomed (workIn s.daemon.runs)) (hleft : unfinished s.daemon.runs ≠ []) :
    ∃ key job, findJob s.daemon.runs key = some job ∧
      (job.state = .queued ∨ job.state = .running) := by
  by_contra hnone
  push Not at hnone
  refine hleft ((unfinished_eq_nil hinv.keys).2 fun key job hjob => ?_)
  obtain ⟨run, hrun, hj⟩ := findJob_eq_some.1 hjob
  obtain ⟨hri, haccepts⟩ := hinv.run key.1 run hrun
  refine hri.terminal haccepts (fun job hmem => ?_)
    ((noneReady_iff hinv.keys).1 hready key.1 run hrun)
    ((noneDoomed_iff hinv.keys).1 hdoomed key.1 run hrun) job (Keyed.mem_of_get? hj)
  exact hnone (key.1, job.jobId) job
    (findJob_eq_some.2 ⟨run, hrun, Keyed.get?_of_mem hri.nodup hmem⟩)

/-- Who runs goes on running while launches are applied, and a decided launch makes its job run,
or ends it. -/
theorem Step.launchesApplied_promises (hinv : KeysInv s) {now : DateTime}
    {outcomes : List LaunchOutcome} (h : Step cfg s (.launchesApplied now) s')
    (hphase : s.phase = .launching [] outcomes)
    (hprom : (∃ key spec, workIn s.daemon.runs key = some (.running, spec)) ∨
      ∃ outcome ∈ outcomes, launchDecides outcome.result = true) :
    (∃ key spec, workIn s'.daemon.runs key = some (.running, spec)) ∨
      (unfinished s'.daemon.runs).length < (unfinished s.daemon.runs).length := by
  rcases hprom with ⟨key, spec, hwork⟩ | ⟨outcome, hmem, hdecides⟩
  · obtain ⟨job, hjob, hrunning, -⟩ := workIn_eq_some.1 hwork
    obtain ⟨job', hjob', hbecame⟩ := h.job hinv hjob
    refine .inl ⟨key, job'.spec, workIn_eq_some.2 ⟨job', hjob', ?_, rfl⟩⟩
    cases hbecame with
    | same _ => exact hrunning
    | launched _ _ _ hqueued _ =>
      rw [hrunning] at hqueued
      cases hqueued
  · obtain ⟨job, job', hjob, hqueued, hjob', hlaunched⟩ := h.launchesApplied_job hinv hphase hmem
    have hopen : job.state.isTerminal = false := by rw [hqueued]; rfl
    cases hlaunched with
    | started log _ =>
      exact .inl ⟨outcome.key, job.spec, workIn_eq_some.2 ⟨_, hjob', rfl, rfl⟩⟩
    | unreachable _ hresult => rw [hresult] at hdecides; cases hdecides
    | turnedDown _ _ hresult => rw [hresult] at hdecides; cases hdecides
    | refused _ _ hresult => rw [hresult] at hdecides; cases hdecides
    | failed _ _ => exact .inr (h.unfinished_lt hinv trivial hjob hopen hjob' rfl)

/-- An answer that a job has ended ends it. -/
theorem Step.pollsApplied_ends (hinv : KeysInv s) {now : DateTime} {entries : List PollEntry}
    (h : Step cfg s (.pollsApplied now) s') (hphase : s.phase = .polling [] entries)
    {entry : PollEntry} (hmem : entry ∈ entries) (hends : pollEnds entry.result = true) :
    (unfinished s'.daemon.runs).length < (unfinished s.daemon.runs).length := by
  obtain ⟨job, job', hjob, hrunning, hjob', hpolled⟩ := h.pollsApplied_job hinv hphase hmem
  refine h.unfinished_lt hinv trivial hjob (by rw [hrunning]; rfl) hjob' ?_
  cases hpolled with
  | running hresult => rw [hresult] at hends; cases hends
  | unreachable _ hresult => rw [hresult] at hends; cases hends
  | failed _ _ => rfl
  | exited exitCode _ => exact job.exited_terminal exitCode _ _ _

/-- Who runs is polled. -/
theorem JobsInv.collects (hinv : JobsInv s) {key : JobKey} {spec : JobSpec}
    (hwork : workIn s.daemon.runs key = some (.running, spec)) :
    collectRunning s.daemon.runs ≠ [] := by
  obtain ⟨job, hjob, hrunning, -⟩ := workIn_eq_some.1 hwork
  obtain ⟨run, hrun, hj⟩ := findJob_eq_some.1 hjob
  obtain ⟨execution, handle, hexec, hhandle⟩ := (hinv.holds key job hjob).running hrunning
  refine List.ne_nil_of_mem (List.mem_filterMap.2 ⟨(key.1, job), mem_allJobs.2 ⟨run,
    Keyed.mem_of_get? hrun, Keyed.key_of_get? hrun, Keyed.mem_of_get? hj⟩,
    runningJob?_eq_some.2 ⟨hrunning, execution, handle, by rw [hexec]; rfl, hhandle, rfl⟩⟩)

/-- A section keeps what was promised, or has ended a job. -/
theorem Step.promises (hinv : AccountsInv cfg inventories s) (hroom : WaitsForRoom s)
    (hcoop : Cooperates s label) (h : Step cfg s label s') (hleft : unfinished s.daemon.runs ≠ [])
    (hprom : s.phase.Promises (workIn s.daemon.runs)) :
    s'.phase.Promises (workIn s'.daemon.runs) ∨
      (unfinished s'.daemon.runs).length < (unfinished s.daemon.runs).length := by
  have hkeys := hinv.toJobsInv.keysInv
  have hkept := h.workIn_kept hkeys hcoop.addsNone
  have hstep := h
  cases h with
  | submit _ _ _ => exact hcoop.elim
  | cancel _ => exact .inl ((hkept rfl).symm ▸ hprom)
  | reorderRuns _ => exact .inl ((hkept rfl).symm ▸ hprom)
  | reorderJobs _ _ => exact .inl ((hkept rfl).symm ▸ hprom)
  | @flushed _ _ _ _ next _ _ _ hok =>
    rw [hkept rfl]
    cases next <;> exact .inl hprom
  | flushDone next => cases next <;> exact .inl hprom
  | cascade now => exact hstep.cascade_promises hkeys hprom
  | @admitQueued daemon _ _ _ _ hlen hok =>
    obtain ⟨hready, hdoomed⟩ := hprom
    obtain ⟨hup, hopen⟩ := hcoop
    by_cases hruns : ∃ key spec, workIn daemon.runs key = some (.running, spec)
    · exact .inl (.inl hruns)
    obtain ⟨key, job, hjob, hqueued | hrunning⟩ :=
      hinv.toJobsInv.someone hready hdoomed hleft
    · have hidle : ∀ key job, findJob daemon.runs key = some job → job.state ≠ .running :=
        fun key job hjob hrunning =>
          hruns ⟨key, job.spec, workIn_eq_some.2 ⟨job, hjob, hrunning, rfl⟩⟩
      exact .inl (.inr (.inl (hinv.places hroom hopen hidle hjob hqueued hlen hup hok)))
    · exact absurd ⟨key, job.spec, workIn_eq_some.2 ⟨job, hjob, hrunning, rfl⟩⟩ hruns
  | @launched _ _ task tasks outcomes results hlen =>
    obtain ⟨-, hplaced, -⟩ := hkeys.phase
    obtain ⟨node, alloc, hplacement⟩ := hplaced task List.mem_cons_self
    obtain ⟨launched, rfl, houtcome⟩ := AdmitTask.outcome_single hplacement hlen
    have hdecides := hcoop launched List.mem_cons_self
    refine .inl (.inr (.inr ⟨_, List.mem_append_right _ (List.mem_singleton_self _), ?_⟩))
    rw [houtcome]
    cases launched with
    | ok _ => rfl
    | error error => cases error <;> first | rfl | exact hdecides
  | @launchesApplied _ _ outcomes now _ hok =>
    rcases hprom with hruns | hne | hdecided
    · exact hstep.launchesApplied_promises hkeys rfl (.inl hruns)
    · exact absurd rfl hne
    · exact hstep.launchesApplied_promises hkeys rfl (.inr hdecided)
  | collect =>
    obtain ⟨key, spec, hwork⟩ := hprom
    exact .inl (.inl (hinv.toJobsInv.collects hwork))
  | polled =>
    exact .inl (.inr ⟨_, List.mem_append_right _ (List.mem_singleton_self _), hcoop⟩)
  | pollsApplied hok =>
    rcases hprom with hne | ⟨entry, hmem, hends⟩
    · exact absurd rfl hne
    · exact .inr (hstep.pollsApplied_ends hkeys rfl hmem hends)
  | _ => exact hprom.elim

/-! ### Tick by tick -/

/-- A tick begins. -/
def Label.isTick : Label → Bool
  | .tick => true
  | _ => false

open Classical in
/-- How many jobs have not ended, less the one that the tick under way will end. -/
noncomputable def owed (s : SchedulerState) : ℕ :=
  (unfinished s.daemon.runs).length - if s.phase.Promises (workIn s.daemon.runs) then 1 else 0

theorem owed_of_promises (h : s.phase.Promises (workIn s.daemon.runs)) :
    owed s = (unfinished s.daemon.runs).length - 1 := by
  rw [owed, if_pos h]

theorem owed_of_not (h : ¬ s.phase.Promises (workIn s.daemon.runs)) :
    owed s = (unfinished s.daemon.runs).length := by
  rw [owed, if_neg h, Nat.sub_zero]

theorem owed_le (s : SchedulerState) : owed s ≤ (unfinished s.daemon.runs).length :=
  Nat.sub_le _ _

/-- A tick that begins promises what it could not before. -/
theorem Step.tick_promises (hinv : KeysInv s) (h : Step cfg s .tick s') :
    ¬ s.phase.Promises (workIn s.daemon.runs) ∧ s'.phase.Promises (workIn s'.daemon.runs) := by
  have hkeys' := (hinv.step h).keys
  cases h with
  | tick => exact ⟨id, noneReady_advancePending hinv.keys hkeys'⟩

/-- No section adds to what is owed, and a tick that begins takes one off. -/
theorem Step.owed_le (hinv : AccountsInv cfg inventories s) (hroom : WaitsForRoom s)
    (hcoop : Cooperates s label) (h : Step cfg s label s') :
    owed s' ≤ owed s - if label.isTick then 1 else 0 := by
  have hkeys := hinv.toJobsInv.keysInv
  have hle := length_unfinished_le (hkeys.step h).keys
    (h.unfinished_subset hkeys hcoop.addsNone)
  by_cases htick : label = .tick
  · subst htick
    obtain ⟨hbefore, hafter⟩ := h.tick_promises hkeys
    rw [owed_of_promises hafter, owed_of_not hbefore]
    exact Nat.sub_le_sub_right hle 1
  · have hother : label.isTick = false := by
      cases label <;> first | rfl | exact absurd rfl htick
    rw [hother, if_neg Bool.false_ne_true, Nat.sub_zero]
    by_cases hprom : s.phase.Promises (workIn s.daemon.runs)
    · rw [owed_of_promises hprom]
      by_cases hnil : unfinished s.daemon.runs = []
      · rw [hnil, List.length_nil, Nat.le_zero] at hle
        exact (Roster.owed_le s').trans (hle.le.trans (Nat.zero_le _))
      · rcases h.promises hinv hroom hcoop hnil hprom with hkept | hlt
        · rw [owed_of_promises hkept]
          exact Nat.sub_le_sub_right hle 1
        · exact (Roster.owed_le s').trans (Nat.le_sub_one_of_lt hlt)
    · rw [owed_of_not hprom]
      exact (Roster.owed_le s').trans hle

end Sections

/-- Before the first run nobody waits. -/
theorem WaitsForRoom.init (pools : List ResourcePool) : WaitsForRoom (.init pools) :=
  fun _ _ hrun => by cases hrun

section

variable {cfg : Config} {inventories : List SystemResources}
  (hnodes : inventories.length = cfg.nodes.length)
  (hindexed : ∀ resources ∈ inventories, resources.Indexed) {s s' : SchedulerState}

include hnodes hindexed in
/-- What holds since the controller started. -/
theorem accounts_and_room (h : (scheduler cfg).Reach (.init (inventories.map .new)) s) :
    AccountsInv cfg inventories s ∧ WaitsForRoom s :=
  h.invariant (I := fun s => AccountsInv cfg inventories s ∧ WaitsForRoom s)
    ⟨.init hnodes hindexed, .init _⟩ fun _ _ _ _ ⟨hinv, hroom⟩ hstep =>
      have hstep := step_of_perform hstep
      ⟨hinv.step hstep, hroom.step hinv.toJobsInv.keysInv hstep⟩

include hnodes hindexed in
/-- **Every tick ends a job.**  From any state of the controller since a first start, while nodes are
up, cards are handed out, launches are decided and jobs exit, each tick ends at least one of the
jobs that have not ended; so once there were as many ticks as such jobs, all have ended.  Jobs wait
for one another only as their dependencies say, and nobody waits forever for room. -/
theorem every_tick_ends_one (hreach : (scheduler cfg).Reach (.init (inventories.map .new)) s)
    {labels : List Label} (h : ((scheduler cfg).guard Cooperates).Trace s labels s')
    (hidle : s'.phase = .idle) :
    (unfinished s'.daemon.runs).length ≤
        (unfinished s.daemon.runs).length - labels.countP Label.isTick ∧
      ((unfinished s.daemon.runs).length ≤ labels.countP Label.isTick →
        ∀ key job, findJob s'.daemon.runs key = some job → job.state.isTerminal = true) := by
  obtain ⟨⟨hinv, -⟩, howed⟩ := h.descend (μ := owed) Label.isTick
    (I := fun s => AccountsInv cfg inventories s ∧ WaitsForRoom s)
    (accounts_and_room hnodes hindexed hreach)
    (fun s label s' ⟨hinv, hroom⟩ ⟨_, hstep⟩ =>
      have hstep := step_of_perform hstep
      ⟨hinv.step hstep, hroom.step hinv.toJobsInv.keysInv hstep⟩)
    fun s label s' ⟨hinv, hroom⟩ ⟨hcoop, hstep⟩ => (step_of_perform hstep).owed_le hinv hroom hcoop
  have hall : owed s' = (unfinished s'.daemon.runs).length :=
    owed_of_not (by rw [hidle]; exact id)
  have hbound : (unfinished s'.daemon.runs).length ≤
      (unfinished s.daemon.runs).length - labels.countP Label.isTick :=
    hall ▸ howed.trans (Nat.sub_le_sub_right (owed_le s) _)
  refine ⟨hbound, fun hticks => (unfinished_eq_nil hinv.keys).1 (List.length_eq_zero_iff.1 ?_)⟩
  omega

end

/-! ### Two jobs -/

instance (s : SchedulerState) : Decidable (CardsOpen s) :=
  decidable_of_iff ((∀ pool ∈ s.daemon.pools, true ∉ pool.blocked) ∧ s.checks.qualifying = [])
    ⟨fun ⟨hflags, huntested⟩ => ⟨hflags, huntested⟩, fun h => ⟨h.flags, h.untested⟩⟩

instance (s : SchedulerState) (label : Label) : Decidable (Cooperates s label) := by
  cases label <;> unfold Cooperates <;> infer_instance

/-- One step, if nothing holds it up. -/
def SchedulerState.cooperate (cfg : Config) (s : SchedulerState) (label : Label) :
    Option SchedulerState :=
  if Cooperates s label then (s.perform cfg label).bind Except.toOption else none

theorem SchedulerState.cooperate_trace {cfg : Config} {s s' : SchedulerState}
    {labels : List Label} (h : LTS.performs (SchedulerState.cooperate cfg) s labels = some s') :
    ((scheduler cfg).guard Cooperates).Trace s labels s' := by
  induction labels generalizing s with
  | nil => exact Option.some.inj h ▸ .nil s
  | cons label labels ih =>
    obtain ⟨mid, hmid, hrest⟩ := Option.bind_eq_some_iff.1 h
    rw [cooperate, Option.ite_none_right_eq_some, Option.bind_eq_some_iff] at hmid
    obtain ⟨hcoop, result, hperform, hresult⟩ := hmid
    cases result with
    | error _ => cases hresult
    | ok _ => exact .cons ⟨hcoop, Option.some.inj hresult ▸ hperform⟩ (ih hrest)

/-- A tick in which the first of two jobs gets the card and is found to have ended. -/
def ticksFirst : List Label :=
  givesCard.tail ++ [.collect, .polled (.ok (.exited 0)) none, .pollsApplied 5, .flushed true 6,
    .flushDone]

/-- The next one, in which the second does. -/
def ticksSecond : List Label :=
  [.tick, .flushDone, .cascade 7, .flushDone, .admitQueued [true],
    .launched [.ok ⟨8, .process none none⟩], .launchesApplied 8, .flushed true 9, .flushDone,
    .collect, .polled (.ok (.exited 0)) none, .pollsApplied 10, .flushed true 11, .flushDone]

/-- Two ticks end two jobs that want the one card, one after the other. -/
theorem twoTicks_end : ∃ s, (scheduler oneMachine).Reach (.init [.new oneCard]) s ∧
    s.daemon.runs.length = 1 ∧
    ∀ key job, findJob s.daemon.runs key = some job → job.state.isTerminal = true := by
  have hsubmit : ((SchedulerState.run oneMachine (.init [.new oneCard])
      (givesCard.take 1)).bind fun s =>
        (LTS.performs (SchedulerState.cooperate oneMachine) s (ticksFirst ++ ticksSecond)).map
          fun s' => (decide ((unfinished s.daemon.runs).length = 2 ∧ s'.daemon.runs.length = 1),
            s'.phase matches .idle)) = some (true, true) := by
    decide +kernel
  obtain ⟨s, hs, hrest⟩ := Option.bind_eq_some_iff.1 hsubmit
  obtain ⟨s', hs', heq⟩ := Option.map_eq_some_iff.1 hrest
  obtain ⟨hcounts, hphase⟩ := Prod.mk.inj heq
  obtain ⟨htwo, hone⟩ := of_decide_eq_true hcounts
  have hidle : s'.phase = .idle := by
    revert hphase
    cases s'.phase <;> simp
  have htrace := SchedulerState.cooperate_trace hs'
  have hreach := SchedulerState.reach_of_run hs
  have hnodes : [oneCard].length = oneMachine.nodes.length := rfl
  have hends := every_tick_ends_one hnodes (by decide) hreach htrace hidle
  exact ⟨s', hreach.trans htrace.reach.of_guard, hone, hends.2 (by rw [htwo]; decide)⟩

end Roster
