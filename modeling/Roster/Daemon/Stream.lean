import Roster.Broadcast.Delivered
import Roster.Daemon.Events
import Roster.Data.Places

/-!
# The scheduler and its subscribers

The scheduler hands every event it sends to the ring, and subscribers read it from there.  `stream`
is the system of both, in which the scheduler, the requests, the stores of the sender and the loads
of the receivers come in any order; one of the receivers is watched.  A dashboard that was never
lapped and has caught up shows every job in the state it is in (`subscriber_current`).
-/

namespace Roster

/-- The scheduler, the ring, and what is observed of one receiver. -/
structure Stream where
  sched : SchedulerState
  ring : Channel JobEvent
  watch : Watch JobEvent

/-- Who makes the next step. -/
inductive StreamLabel
  /-- The scheduler; if it sends an event, it claims the event's position in the ring. -/
  | sched (label : Label)
  /-- The sender's next store. -/
  | store
  | subscribe
  /-- The next load of the `i`-th receiver. -/
  | receive (i : ℕ)

namespace Stream

/-- A step of the ring. -/
def performRing (i : ℕ) (s : Stream) (label : RingLabel JobEvent) : Option Stream :=
  match s.ring.perform label with
  | some (.ok (ring, returned)) =>
    some { s with ring := ring, watch := s.watch.after i s.ring label returned }
  | _ => none

/-- One step, with an eye on the `i`-th receiver. -/
def perform (cfg : Config) (i : ℕ) (s : Stream) : StreamLabel → Option Stream
  | .sched label =>
    match s.sched.perform cfg label with
    | some (.ok next) =>
      match next.daemon.events.drop s.sched.daemon.events.length with
      | [] => some { s with sched := next }
      | event :: _ => { s with sched := next }.performRing i (.send event)
    | _ => none
  | .store => s.performRing i .store
  | .subscribe => s.performRing i .subscribe
  | .receive j => s.performRing i (.receive j)

end Stream

/-- The scheduler and its subscribers, with an eye on the `i`-th. -/
def stream (cfg : Config) (i : ℕ) : LTS Stream StreamLabel := .ofPerform (Stream.perform cfg i)

/-! ### Both sides -/

section

variable {cfg : Config} {i : ℕ}

theorem Stream.performRing_eq_some {s s' : Stream} {label : RingLabel JobEvent} :
    s.performRing i label = some s' ↔ ∃ ring returned,
      s.ring.perform label = some (.ok (ring, returned)) ∧
        s' = { s with ring := ring, watch := s.watch.after i s.ring label returned } := by
  unfold Stream.performRing
  constructor
  · intro h
    split at h
    · next ring returned hring => exact ⟨ring, returned, hring, (Option.some.inj h).symm⟩
    · cases h
  · rintro ⟨ring, returned, hring, rfl⟩
    rw [hring]

/-- A step of the scheduler sends one event at most, after those it sent before. -/
theorem Step.events {s s' : SchedulerState} {label : Label} (hinv : KeysInv s)
    (h : Step cfg s label s') : s'.daemon.events = s.daemon.events ∨
      ∃ event, s'.daemon.events = s.daemon.events ++ [event] := by
  cases h.kind with
  | submit _ _ => exact .inl rfl
  | @flushed daemon checks key toWrite next _ _ daemon' hok =>
    cases hjob : findJob daemon.runs key with
    | some job =>
      obtain ⟨-, event, -, hevents⟩ := flushTransition_event hok hjob
      exact .inr ⟨event, hevents⟩
    | none =>
      refine .inl ?_
      unfold flushTransition at hok
      split at hok
      · rw [← Except.ok.inj hok]
      next run hrun =>
      rw [findJob_eq_of_findRun hrun] at hjob
      rw [hjob] at hok
      rw [← Except.ok.inj hok]
  | silent hsilent => exact .inl (h.numbersKept hinv hsilent).events

/-- What a step of the stream is to the scheduler and to the ring. -/
theorem Stream.perform_cases {s s' : Stream} {label : StreamLabel} (hinv : KeysInv s.sched)
    (h : s.perform cfg i label = some s') :
    (scheduler cfg).Reach s.sched s'.sched ∧
      ∃ sent, s'.sched.daemon.events = s.sched.daemon.events ++ sent ∧
        ∀ before, (observed JobEvent i).Reach (s.ring, before, s.watch)
          (s'.ring, before ++ sent, s'.watch) := by
  -- a step of the ring that hands nothing to it leaves the scheduler
  have hquiet : ∀ label, RingLabel.sent label = [] → s.performRing i label = some s' →
      (scheduler cfg).Reach s.sched s'.sched ∧
        ∃ sent, s'.sched.daemon.events = s.sched.daemon.events ++ sent ∧
          ∀ before, (observed JobEvent i).Reach (s.ring, before, s.watch)
            (s'.ring, before ++ sent, s'.watch) := by
    intro label hsent h
    obtain ⟨ring, returned, hring, rfl⟩ := Stream.performRing_eq_some.1 h
    refine ⟨.refl, [], (List.append_nil _).symm, fun before => ?_⟩
    have hstep : (observed JobEvent i).step (s.ring, before, s.watch) label
        (ring, before ++ label.sent, s.watch.after i s.ring label returned) :=
      ⟨rfl, returned, hring, rfl⟩
    rw [hsent] at hstep
    exact LTS.Reach.refl.tail hstep
  cases label with
  | store => exact hquiet .store rfl h
  | subscribe => exact hquiet .subscribe rfl h
  | receive j => exact hquiet (.receive j) rfl h
  | sched label =>
    simp only [Stream.perform] at h
    split at h
    · next next hnext =>
      have hreach : (scheduler cfg).Reach s.sched next := LTS.Reach.refl.tail hnext
      rcases (step_of_perform hnext).events hinv with hsame | ⟨event, hevents⟩
      · rw [hsame, List.drop_length] at h
        obtain rfl := Option.some.inj h
        exact ⟨hreach, [], by rw [List.append_nil]; exact hsame, fun before => by
          rw [List.append_nil]; exact .refl⟩
      · rw [hevents, List.drop_left] at h
        obtain ⟨ring, returned, hring, rfl⟩ := Stream.performRing_eq_some.1 h
        refine ⟨hreach, [event], hevents, fun before => ?_⟩
        have hstep : (observed JobEvent i).step (s.ring, before, s.watch) (.send event)
            (ring, before ++ [event], s.watch.after i s.ring (.send event) returned) :=
          ⟨rfl, returned, hring, rfl⟩
        exact LTS.Reach.refl.tail hstep
    · cases h

/-- A run of the stream is a run of the scheduler, whose events are what went through the ring. -/
theorem Stream.reach_both {s₀ s : Stream} (hstart : s₀.sched.Starts)
    (h : (stream cfg i).Reach s₀ s) : (scheduler cfg).Reach s₀.sched s.sched ∧
      (observed JobEvent i).Reach (s₀.ring, [], s₀.watch)
        (s.ring, s.sched.daemon.events, s.watch) := by
  refine h.invariant (I := fun s => (scheduler cfg).Reach s₀.sched s.sched ∧
    (observed JobEvent i).Reach (s₀.ring, [], s₀.watch)
      (s.ring, s.sched.daemon.events, s.watch)) ⟨.refl, hstart.events ▸ .refl⟩ ?_
  rintro s label s' - ⟨hsched, hring⟩ hperform
  obtain ⟨hinv, -⟩ := announced_of_reach hstart hsched
  obtain ⟨hnext, sent, hevents, hobserved⟩ := Stream.perform_cases hinv.keysInv hperform
  exact ⟨hsched.trans hnext, hevents ▸ hring.trans (hobserved _)⟩

end

/-! ### Catching up -/

/-- Reading on from where somebody stopped. -/
theorem eventsOf_append (events events' : List JobEvent) (jobSeq : ℕ) :
    eventsOf (events ++ events') jobSeq = eventsOf events jobSeq ++ eventsOf events' jobSeq := by
  simp [eventsOf]

/-- **A subscriber that was never lapped and has caught up knows every job's state.**  It got the
events since it subscribed, each once and in order; whoever takes them in, job by job, on top of
what had been told until then, has the state of every job, but for those the flush under way has
still to tell. -/
theorem subscriber_current {cfg : Config} {i : ℕ} {s₀ : SchedulerState} {capacity : UInt64}
    {ring₀ : Channel JobEvent} {s : Stream} (hstart : s₀.Starts)
    (hring : channel JobEvent capacity = some ring₀)
    (h : (stream cfg i).Reach ⟨s₀, ring₀, .new⟩ s)
    (hsmall : s.sched.daemon.events.length + 1 < 2 ^ 63)
    (hcount : s.sched.daemon.jobCounter ≤ UInt64.size) {rx : SpmcReceiver}
    (hrx : s.ring.receivers[i]? = some rx) (hlaps : rx.laps = 0)
    (hcaught : rx.pos = s.ring.buffer.producer) :
    ∃ first, s.watch.subscribedAt = some first ∧
      s.watch.received = s.sched.daemon.events.drop first ∧
      ∀ key job, findJob s.sched.daemon.runs key = some job → key ∉ s.sched.phase.toWrite →
        (eventsOf s.watch.received job.jobSeq).getLastD
          ((eventsOf (s.sched.daemon.events.take first) job.jobSeq).getLastD
            (firstState s₀.daemon.runs key)) = job.state := by
  obtain ⟨hsched, hobserved⟩ := Stream.reach_both (by exact hstart) h
  obtain ⟨hproducer, hdelivers⟩ := received_of_unlapped hring hobserved hsmall
  obtain ⟨first, hfirst, -, -, hreceived⟩ := hdelivers rx hrx hlaps
  rw [hcaught, hproducer, List.take_length] at hreceived
  refine ⟨first, hfirst, hreceived, fun key job hjob hnot => ?_⟩
  obtain ⟨-, hnumbered, history, hannounced⟩ := announced_of_reach hstart hsched
  rw [hreceived, ← getLastD_append, ← eventsOf_append, List.take_append_drop,
    told_of_events hnumbered hcount hannounced.events hjob, ← ChangeLog.replay_eq_getLast]
  exact hannounced.tracks.upToDate key job.state (stateIn_eq_some.2 ⟨job, hjob, rfl⟩) hnot

/-- A dashboard subscribes, a job is submitted and queued, and the dashboard reads that. -/
def toldQueued : List StreamLabel :=
  .subscribe :: (startsFirst.take 3).map .sched ++ List.replicate 6 .store ++
    List.replicate 6 (.receive 0)

/-- It was told what there is to tell, and knows that the job is Queued. -/
theorem toldQueued_current : ∃ s job,
    (stream oneMachine 0).Reach ⟨.init [.new ⟨4, 8192, []⟩], twoSlots, .new⟩ s ∧
      findJob s.sched.daemon.runs ("r", "a") = some job ∧ job.state = .queued ∧
      s.watch.received = s.sched.daemon.events ∧
      (eventsOf s.watch.received job.jobSeq).getLastD .pending = job.state := by
  have hring : channel JobEvent 1 = some twoSlots := by decide +kernel
  have hrun : (LTS.performs (Stream.perform oneMachine 0)
      ⟨.init [.new ⟨4, 8192, []⟩], twoSlots, .new⟩ toldQueued).bind (fun s =>
        (findJob s.sched.daemon.runs ("r", "a")).bind fun job =>
          (s.ring.receivers[0]?).map fun rx =>
            decide (job.state = .queued ∧ rx.laps = 0 ∧ rx.pos = s.ring.buffer.producer ∧
              s.sched.daemon.events.length = 1 ∧ s.sched.daemon.jobCounter ≤ UInt64.size ∧
              s.watch.subscribedAt = some 0 ∧ s.sched.phase.toWrite = [])) = some true := by
    decide +kernel
  obtain ⟨s, hs, hrest⟩ := Option.bind_eq_some_iff.1 hrun
  obtain ⟨job, hjob, hrest⟩ := Option.bind_eq_some_iff.1 hrest
  obtain ⟨rx, hrx, heq⟩ := Option.map_eq_some_iff.1 hrest
  obtain ⟨hstate, hlaps, hcaught, hlength, hcount, hat, htoWrite⟩ := of_decide_eq_true heq
  have hreach : (stream oneMachine 0).Reach _ s :=
    (LTS.Reach.of_performs (G := fun _ _ => True) hs fun _ _ _ => trivial).of_guard
  obtain ⟨first, hfirst, hreceived, hcurrent⟩ := subscriber_current (.init _) hring hreach
    (by rw [hlength]; decide) hcount hrx hlaps hcaught
  obtain rfl : first = 0 := Option.some.inj (hfirst.symm.trans hat)
  rw [List.drop_zero] at hreceived
  exact ⟨s, job, hreach, hjob, hstate, hreceived,
    hcurrent ("r", "a") job hjob (by rw [htoWrite]; exact List.not_mem_nil)⟩

end Roster
