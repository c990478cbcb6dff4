import Roster.Scheduler.Cancel

/-!
# Cards that are owed a test

A job that is killed by a signal puts its cards into `requalify`, and the GPU check takes a card out
when it reserves it for a test.  The launch comes later, without the lock, and what it returns is
not looked at again: a card whose launch fails is neither in `requalify` nor tested.

`retests` is the scheduler together with the cards it owes a test, that is those a job asked for and
that no launch since then was for.  An owed card is in `requalify`, or the check is about to launch
its test, in every state of every run in which the launches of owed cards succeed
(`retest_neverLost`).
-/

namespace Roster

/-- A card, by its node and its index. -/
abbrev CardKey := ℕ × UInt32

/-- The card that is to be tested. -/
def ToQualify.key (card : ToQualify) : CardKey := (card.node, card.gpu.index)

/-- The cards whose tests the check is about to launch, the next one first. -/
def Phase.toLaunch : Phase → List CardKey
  | .qualifying todo => todo.map ToQualify.key
  | _ => []

/-- The cards that are owed a test after a step: `advance_running` adds those in `requalify`, and
the launch of a test settles its card. -/
def owedAfter (owed : List CardKey) (s : SchedulerState) (label : Label) (s' : SchedulerState) :
    List CardKey :=
  match label with
  | .pollsApplied _ => extendSet owed s'.daemon.requalify
  | .qualificationLaunched (.ok _) _ =>
    owed.filter fun key => decide (s.phase.toLaunch.head? ≠ some key)
  | _ => owed

/-- The scheduler and the cards it owes a test. -/
structure Retests where
  sched : SchedulerState
  owed : List CardKey

namespace Retests

/-- Whatever is in `requalify` at the start is owed a test. -/
def start (s : SchedulerState) : Retests := ⟨s, s.daemon.requalify⟩

/-- One step of the scheduler. -/
def perform (cfg : Config) (r : Retests) (label : Label) : Option Retests :=
  match r.sched.perform cfg label with
  | some (.ok s') => some ⟨s', owedAfter r.owed r.sched label s'⟩
  | _ => none

/-- Every owed card is in `requalify`, or its test is about to be launched. -/
def NeverLost (r : Retests) : Prop :=
  ∀ key ∈ r.owed, key ∈ r.sched.daemon.requalify ∨ key ∈ r.sched.phase.toLaunch

/-- The launch of a test that is owed succeeds. -/
def LaunchesOwed (r : Retests) : Label → Prop
  | .qualificationLaunched (.error _) _ => ∀ key ∈ r.sched.phase.toLaunch.head?, key ∉ r.owed
  | _ => True

end Retests

/-- The scheduler, with the cards it owes a test. -/
def retests (cfg : Config) : LTS Retests Label := .ofPerform (Retests.perform cfg)

/-! ### What the check does to `requalify` -/

/-- A card leaves `requalify` when it is to be tested; what is to be tested stays so. -/
structure Accounted (requalify : List CardKey) (toQualify : List ToQualify)
    (requalify' : List CardKey) (toQualify' : List ToQualify) : Prop where
  tests : ∀ card ∈ toQualify, card ∈ toQualify'
  cards : ∀ key ∈ requalify, key ∈ requalify' ∨ key ∈ toQualify'.map ToQualify.key

namespace Accounted

variable {requalify requalify' requalify'' : List CardKey}
  {toQualify toQualify' toQualify'' : List ToQualify}

theorem refl (requalify : List CardKey) (toQualify : List ToQualify) :
    Accounted requalify toQualify requalify toQualify :=
  ⟨fun _ => id, fun _ => .inl⟩

theorem trans (h : Accounted requalify toQualify requalify' toQualify')
    (h' : Accounted requalify' toQualify' requalify'' toQualify'') :
    Accounted requalify toQualify requalify'' toQualify'' where
  tests card hcard := h'.tests card (h.tests card hcard)
  cards key hkey := by
    rcases h.cards key hkey with hmem | hmem
    · exact h'.cards key hmem
    · obtain ⟨card, hcard, rfl⟩ := List.mem_map.1 hmem
      exact .inr (List.mem_map_of_mem (h'.tests card hcard))

theorem checkCard {node : ℕ} {view : NodeView} {reading : List GpuHealth}
    {lastQualified : List (CardKey × Instant)} {utc : DateTime} {now : Instant}
    {check check' : CardCheck} {gpu : GpuInfo}
    (h : checkCard node view reading lastQualified utc now check gpu = .ok check') :
    Accounted check.requalify check.toQualify check'.requalify check'.toQualify := by
  unfold Roster.checkCard at h
  obtain ⟨pool, -, h⟩ := Exec.bind_eq_ok.1 h
  split at h
  · obtain rfl := Exec.pure_eq_ok.1 h; exact .refl _ _
  split at h
  · obtain ⟨⟨found, pool'⟩, -, hend⟩ := Exec.bind_eq_ok.1 h
    cases found with
    | none => obtain rfl := Exec.pure_eq_ok.1 hend; exact .refl _ _
    | some allocation =>
      obtain rfl := Exec.pure_eq_ok.1 hend
      refine ⟨fun card hcard => List.mem_append_left _ hcard, fun key hkey => ?_⟩
      by_cases hself : key = (node, gpu.index)
      · exact .inr (by simp [hself, ToQualify.key])
      · exact .inl (List.mem_filter.2 ⟨hkey, by simpa using hself⟩)
  · obtain rfl := Exec.pure_eq_ok.1 h; exact .refl _ _

theorem checkNode {node : ℕ} {view : NodeView} {lastQualified : List (CardKey × Instant)}
    {utc : DateTime} {now : Instant} {check check' : CardCheck}
    (h : checkNode node view lastQualified utc now check = .ok check') :
    Accounted check.requalify check.toQualify check'.requalify check'.toQualify := by
  rcases checkNode_eq_ok h with ⟨-, rfl⟩ | ⟨reading, -, -, hcards⟩
  · exact .refl _ _
  · exact Exec.foldlM_invariant (P := fun mid => Accounted check.requalify check.toQualify
      mid.requalify mid.toQualify) (fun _ _ _ _ hmid hcard => hmid.trans (.checkCard hcard)) hcards
      (.refl _ _)

theorem checkNodes {lastQualified : List (CardKey × Instant)} {utc : DateTime} {now : Instant}
    {views : List NodeView} {node : ℕ} {pools pools' : List ResourcePool}
    (h : checkNodes lastQualified utc now node views (pools, requalify, toQualify) =
      .ok (pools', requalify', toQualify')) :
    Accounted requalify toQualify requalify' toQualify' := by
  induction views generalizing node pools requalify toQualify with
  | nil =>
    obtain ⟨-, rfl, rfl⟩ : pools = pools' ∧ requalify = requalify' ∧ toQualify = toQualify' := by
      simpa [Roster.checkNodes] using h
    exact .refl _ _
  | cons view views ih =>
    simp only [Roster.checkNodes, Exec.bind_eq_ok] at h
    obtain ⟨pool, -, check, hcheck, hrest⟩ := h
    exact (Accounted.checkNode hcheck).trans (ih hrest)

end Accounted

/-! ### What the other sections do to it -/

theorem applyLaunches_requalify {cfg : Config} {now : DateTime} {daemon : DaemonState}
    {outcomes : List LaunchOutcome} {applied : Applied}
    (h : applyLaunches cfg now daemon outcomes = .ok applied) :
    applied.daemon.requalify = daemon.requalify := by
  refine Exec.foldlM_invariant (P := fun acc => acc.daemon.requalify = daemon.requalify)
    (fun acc outcome acc' _ hacc hok => ?_) h rfl
  cases applyLaunch_eq_ok hok with
  | returned => exact hacc
  | started => exact hacc
  | turnedDown => exact hacc
  | failed => exact hacc

/-- `advance_running` only adds cards. -/
theorem applyPolls_requalify {now : DateTime} {daemon : DaemonState} {entries : List PollEntry}
    {applied : Applied} (h : applyPolls now daemon entries = .ok applied) :
    daemon.requalify ⊆ applied.daemon.requalify := by
  refine Exec.foldlM_invariant (P := fun acc => daemon.requalify ⊆ acc.daemon.requalify)
    (fun acc entry acc' _ hacc hok => ?_) h (List.Subset.refl _)
  cases applyPoll_eq_ok hok with
  | same => exact hacc
  | failed => exact hacc
  | exited =>
    dsimp only
    split
    · exact List.Subset.trans hacc (List.subset_append_left _ _)
    · exact hacc

/-! ### Runs -/

namespace Retests

variable {cfg : Config} {r r' : Retests} {label : Label}

theorem perform_eq_some : r.perform cfg label = some r' ↔
    ∃ s', r.sched.perform cfg label = some (.ok s') ∧
      r' = ⟨s', owedAfter r.owed r.sched label s'⟩ := by
  unfold perform
  split
  · next s' hs' => simp [hs', eq_comm]
  · next hne =>
    simp only [reduceCtorEq, false_iff]
    rintro ⟨s', hs', -⟩
    exact hne s' hs'

/-- A step that leaves the owed cards, `requalify` and the tests to launch as they are. -/
theorem NeverLost.same {s s' : SchedulerState} {owed : List CardKey} (h : NeverLost ⟨s, owed⟩)
    (hrequalify : s'.daemon.requalify = s.daemon.requalify)
    (hphase : s'.phase.toLaunch = s.phase.toLaunch) : NeverLost ⟨s', owed⟩ := by
  intro key hkey
  rw [hrequalify, hphase]
  exact h key hkey

theorem NeverLost.step (h : NeverLost r) (hguard : r.LaunchesOwed label)
    (hst : r.perform cfg label = some r') : NeverLost r' := by
  obtain ⟨s', hstep, rfl⟩ := perform_eq_some.1 hst
  obtain ⟨s, owed⟩ := r
  cases step_of_perform hstep with
  | flushed hok =>
    obtain ⟨store, events, rfl⟩ := flushTransition_eq_ok hok
    exact h.same rfl rfl
  | flushDone next => cases next <;> exact h.same rfl rfl
  | launchesApplied hok => exact h.same (applyLaunches_requalify hok) rfl
  | gpusBlocked hlen hok =>
    obtain ⟨pools, requalify, rfl, hcheck⟩ := blockGpus_eq_ok hok
    intro key hkey
    rcases h key hkey with hmem | hmem
    · exact (Accounted.checkNodes hcheck).cards key hmem
    · cases hmem
  | @qualificationLaunched _ _ card todo result now pools checks' hok =>
    intro key hkey
    cases result with
    | ok handle =>
      -- this card's test runs now, so it is owed no more
      obtain ⟨howed, hne⟩ := List.mem_filter.1 hkey
      refine (h key howed).imp_right fun hmem => ?_
      rcases List.mem_cons.1 hmem with rfl | hmem
      · simp [Phase.toLaunch] at hne
      · exact hmem
    | error error =>
      refine (h key hkey).imp_right fun hmem => ?_
      rcases List.mem_cons.1 hmem with rfl | hmem
      · exact absurd hkey (hguard _ rfl)
      · exact hmem
  | pollsApplied hok =>
    intro key hkey
    rcases List.mem_append.1 hkey with howed | hnew
    · refine (h key howed).imp_left fun hmem => ?_
      exact applyPolls_requalify hok hmem
    · exact .inl (List.mem_filter.1 hnew).1
  | _ => exact h.same rfl rfl

end Retests

/-- **A requested test is never lost**, in every run in which the launches of owed tests succeed:
a card leaves `requalify` only for a test that is launched. -/
theorem retest_neverLost (cfg : Config) (s₀ : SchedulerState) (r : Retests)
    (h : ((retests cfg).guard Retests.LaunchesOwed).Reach (.start s₀) r) : r.NeverLost :=
  h.invariant (fun _ hkey => .inl hkey) fun _ _ _ _ hlost hst => hlost.step hst.1 hst.2

/-! ### A launch that fails -/

/-- A card that was tested an hour before it is looked at. -/
def testedBefore : GpuHealth := { index := 0, testedAt := some 0 }

def anHour : DateTime := 3600 * 1000000000

/-- A job on the card is killed by a signal, and the next check reserves the card for a test. -/
def killedThenChecked : List Label :=
  givesCard ++ [.collect, .polled (.ok (.exited (-1))) none, .pollsApplied 6, .flushed true 7,
    .flushDone, .checkGpus, .qualificationsFinished, .gpusBlocked (checkSees testedBefore) anHour 0]

/-- The log of the test can't be made. -/
def launchFails : List Label :=
  [.qualificationLaunched (.error (.logSetupFailed "No space left on device")) 0, .gpusChecked]

/-- The card is owed a test, but it is not in `requalify` any more, and no later check finds it due
before a day has passed since its last test. -/
theorem launchFails_lost : ∃ r, (retests oneMachine).Reach (.start (.init [.new oneCard])) r ∧
    ¬ r.NeverLost ∧ ∀ (utc : DateTime) (now : Instant), utc ≤ qualifyEvery →
      dueForTest r.sched.daemon.requalify r.sched.checks.lastQualified utc now (0, 0)
        testedBefore = false := by
  have hrun : (LTS.performs (Retests.perform oneMachine) (.start (.init [.new oneCard]))
      (killedThenChecked ++ launchFails)).map (fun r =>
        (r.owed, r.sched.daemon.requalify, r.sched.phase.toLaunch)) = some ([(0, 0)], [], []) := by
    decide
  obtain ⟨r, hr, hend⟩ := Option.map_eq_some_iff.1 hrun
  simp only [Prod.mk.injEq] at hend
  obtain ⟨howed, hrequalify, hlaunch⟩ := hend
  refine ⟨r, (LTS.Reach.of_performs (G := fun _ _ => True) hr fun _ _ _ => trivial).of_guard,
    fun hlost => ?_, fun utc now hutc => ?_⟩
  · have h := hlost (0, 0) (by simp [howed])
    simp [hrequalify, hlaunch] at h
  · have hrecent : ¬ qualifyEvery < utc := not_lt.2 hutc
    simp [dueForTest, hrequalify, testedBefore, hrecent]

/-- The test is launched. -/
def testLaunched : Label := .qualificationLaunched (.ok ⟨8, .process none none⟩) 0

/-- When it is, nothing is lost: the card is owed a test until then, and is under test from there
on. -/
theorem killedThenChecked_owed : ∃ r r' : Retests, r.NeverLost ∧ r.owed = [(0, 0)] ∧
    (retests oneMachine).step r testLaunched r' ∧ r'.NeverLost ∧ r'.owed = [] ∧
    r'.sched.checks.qualifying.map Qualification.gpu = [0] := by
  have hrun : (LTS.performs (Retests.perform oneMachine) (.start (.init [.new oneCard]))
      killedThenChecked).bind (fun r => (r.perform oneMachine testLaunched).map fun r' =>
        (r.owed, r'.owed, r'.sched.checks.qualifying.map Qualification.gpu)) =
          some ([(0, 0)], [], [0]) := by decide
  obtain ⟨r, hr, hrest⟩ := Option.bind_eq_some_iff.1 hrun
  obtain ⟨r', hlaunch, hend⟩ := Option.map_eq_some_iff.1 hrest
  simp only [Prod.mk.injEq] at hend
  obtain ⟨howed, hsettled, hunder⟩ := hend
  have hkeeps : ∀ r, ∀ label ∈ killedThenChecked, Retests.LaunchesOwed r label := by
    intro r label hlabel
    have hother : ∀ reply now, label ≠ .qualificationLaunched reply now := by
      rintro reply now rfl
      simp [killedThenChecked, givesCard] at hlabel
    cases label with
    | qualificationLaunched reply now => exact absurd rfl (hother reply now)
    | _ => trivial
  have hbefore : ((retests oneMachine).guard Retests.LaunchesOwed).Reach
      (.start (.init [.new oneCard])) r := LTS.Reach.of_performs hr hkeeps
  have hlaunched : ((retests oneMachine).guard Retests.LaunchesOwed).step r testLaunched r' :=
    ⟨trivial, hlaunch⟩
  exact ⟨r, r', retest_neverLost oneMachine _ r hbefore, howed, hlaunch,
    retest_neverLost oneMachine _ r' (hbefore.tail hlaunched), hsettled, hunder⟩

end Roster
