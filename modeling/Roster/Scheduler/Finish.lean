import Roster.Executor.Remote
import Roster.Scheduler.Step

/-!
# When a qualification's card is given back

`finish_qualifications` asks about every running qualification once.  One that is over gives its
card back, and the others stay in `qualifying` (`finished_iff`): nothing is lost and nothing is
given back twice.

A card may be given back when the node answered that the qualification ended or that it does not
know it, or when it stopped one that is past its timeout (`QualificationReply.Settles`).  The code
does not look at what the cancel of a timed-out one returned, and takes every error other than an
unreachable node for an end; a card is given back too early exactly when one of these two happens
(`QualificationReply.Sound`).
-/

namespace Roster

/-- The worker's answer about an execution that is not there. -/
def unknownExecution : ExecutorError := .remote "unknown execution"

/-- It has been running for longer than a test may take. -/
def Qualification.TimedOut (qualification : Qualification) (now : Instant) : Prop :=
  qualifyTimeout < now - qualification.started

/-- What was answered about one qualification: to the poll, at `now`, and to the cancel of one that
is past its timeout.  What the node answers to the report of the failed test is only logged. -/
structure QualificationReply where
  polled : Except ExecutorError PollResult
  cancelled : Except ExecutorError Unit
  now : Instant

namespace QualificationReply

/-- The qualification no longer runs: the node says so, or it stopped it. -/
def Settles (reply : QualificationReply) (qualification : Qualification) : Prop :=
  (∃ exitCode, reply.polled = .ok (.exited exitCode)) ∨ reply.polled = .error unknownExecution ∨
    (qualification.TimedOut reply.now ∧ reply.polled = .ok .running ∧ reply.cancelled = .ok ())

/-- The cancel of a timed-out qualification succeeds, and a node that answers a poll with an error
does not know the execution. -/
def Sound (reply : QualificationReply) (qualification : Qualification) : Prop :=
  match reply.polled with
  | .ok .running => qualification.TimedOut reply.now → reply.cancelled = .ok ()
  | .ok (.exited _) => True
  | .error (.unreachable _) => True
  | .error error => error = unknownExecution

/-- For one qualification: being over settles it exactly if the answers are sound. -/
theorem settles_iff {reply : QualificationReply} {qualification : Qualification} :
    (qualification.isOver reply.now reply.polled = true → reply.Settles qualification) ↔
      reply.Sound qualification := by
  obtain ⟨polled, cancelled, now⟩ := reply
  cases polled with
  | ok result =>
    cases result with
    | running =>
      simp only [Settles, Sound, Qualification.isOver, Qualification.TimedOut, decide_eq_true_eq]
      simp +contextual
    | exited exitCode => simp [Settles, Sound, Qualification.isOver]
  | error error => cases error <;> simp [Settles, Sound, Qualification.isOver, unknownExecution]

end QualificationReply

/-- What a step of the check answers about the qualification whose turn it is. -/
def Label.reply? : Label → Option QualificationReply
  | .qualificationPolled result stopped now => some ⟨result, stopped, now⟩
  | _ => none

/-- It was answered that the qualification is over. -/
def isOver (asked : Qualification × QualificationReply) : Bool :=
  asked.1.isOver asked.2.now asked.2.polled

/-- The qualifications that give their card back. -/
def overOf (asked : List (Qualification × QualificationReply)) : List Qualification :=
  (asked.filter isOver).map Prod.fst

/-- The qualifications that keep running. -/
def keptOf (asked : List (Qualification × QualificationReply)) : List Qualification :=
  (asked.filter fun entry => !isOver entry).map Prod.fst

theorem overOf_append_keptOf (asked : List (Qualification × QualificationReply)) :
    (keptOf asked ++ overOf asked).Perm (asked.map Prod.fst) := by
  rw [keptOf, overOf, ← List.map_append]
  refine List.Perm.map _ (List.perm_append_comm.trans ?_)
  exact List.filter_append_perm isOver asked

/-! ### The walk over the list -/

/-- Where the walk has come: `asked` were asked, `rest` are left. -/
structure Walked (s : SchedulerState) (todo ended : List Qualification)
    (asked : List (Qualification × QualificationReply)) (rest : List Qualification)
    (s' : SchedulerState) : Prop where
  todo : todo = asked.map Prod.fst ++ rest
  phase : s'.phase = .finishing rest (ended ++ overOf asked)
  qualifying : s'.checks.qualifying = s.checks.qualifying ++ keptOf asked
  pools : s'.daemon.pools = s.daemon.pools

/-- Nobody is asked, as in the requests that come in between. -/
theorem Walked.nobody {s s' : SchedulerState} {todo ended : List Qualification}
    (hphase : s'.phase = .finishing todo ended) (hchecks : s'.checks = s.checks)
    (hpools : s'.daemon.pools = s.daemon.pools) : Walked s todo ended [] todo s' :=
  ⟨rfl, by simpa [overOf] using hphase, by simp [keptOf, hchecks], hpools⟩

theorem Walked.trans {s mid s' : SchedulerState} {todo ended left rest : List Qualification}
    {asked asked' : List (Qualification × QualificationReply)}
    (h : Walked s todo ended asked left mid)
    (h' : Walked mid left (ended ++ overOf asked) asked' rest s') :
    Walked s todo ended (asked ++ asked') rest s' where
  todo := by rw [h.todo, h'.todo, List.map_append, List.append_assoc]
  phase := by rw [h'.phase]; simp [overOf]
  qualifying := by rw [h'.qualifying, h.qualifying]; simp [keptOf]
  pools := h'.pools.trans h.pools

/-- One step of the walk: the qualification whose turn it is goes to one of the two lists. -/
theorem finishing_step {cfg : Config} {s s' : SchedulerState} {label : Label}
    {todo ended : List Qualification} (h : (scheduler cfg).step s label s')
    (hphase : s.phase = .finishing todo ended) (hlabel : label ≠ .qualificationsFinished) :
    ∃ asked rest, label.reply?.toList = asked.map Prod.snd ∧ Walked s todo ended asked rest s' := by
  cases step_of_perform h with
  | submit => exact ⟨[], todo, rfl, .nobody hphase rfl rfl⟩
  | cancel => exact ⟨[], todo, rfl, .nobody hphase rfl rfl⟩
  | reorderRuns => exact ⟨[], todo, rfl, .nobody hphase rfl rfl⟩
  | reorderJobs => exact ⟨[], todo, rfl, .nobody hphase rfl rfl⟩
  | @qualificationOver _ _ qualification rest _ result stopped now hover =>
    obtain ⟨rfl, rfl⟩ := Phase.finishing.inj hphase
    refine ⟨[(qualification, ⟨result, stopped, now⟩)], rest, rfl, rfl, ?_, ?_, rfl⟩
    · simp [overOf, isOver, hover]
    · simp [keptOf, isOver, hover]
  | @qualificationKept _ _ qualification rest _ result stopped now hover =>
    obtain ⟨rfl, rfl⟩ := Phase.finishing.inj hphase
    refine ⟨[(qualification, ⟨result, stopped, now⟩)], rest, rfl, rfl, ?_, ?_, rfl⟩
    · simp [overOf, isOver, hover]
    · simp [keptOf, isOver, hover]
  | qualificationsFinished => exact absurd rfl hlabel
  | _ => cases hphase

theorem finishing_trace {cfg : Config} {s s' : SchedulerState} {labels : List Label}
    {todo ended : List Qualification} (h : (scheduler cfg).Trace s labels s')
    (hphase : s.phase = .finishing todo ended) (hlabels : .qualificationsFinished ∉ labels) :
    ∃ asked rest, labels.filterMap Label.reply? = asked.map Prod.snd ∧
      Walked s todo ended asked rest s' := by
  induction h generalizing todo ended with
  | nil s => exact ⟨[], todo, rfl, .nobody hphase rfl rfl⟩
  | @cons s mid s' label labels hst htrace ih =>
    rw [List.mem_cons, not_or] at hlabels
    obtain ⟨asked, left, hreply, hwalked⟩ := finishing_step hst hphase (Ne.symm hlabels.1)
    obtain ⟨asked', rest, hreplies, hrest⟩ := ih hwalked.phase hlabels.2
    refine ⟨asked ++ asked', rest, ?_, hwalked.trans hrest⟩
    rw [List.map_append, ← hreply, ← hreplies, List.filterMap_cons]
    cases label.reply? <;> rfl

/-- **When cards are given back.**  One call of `finish_qualifications`, with requests in between:
every running qualification is asked about once; those that are over give their cards back, once,
and the others stay in `qualifying`.  Every card given back belongs to a qualification that the
node says ended, that it does not know or that it stopped, exactly if the answers are sound. -/
theorem finished_iff (cfg : Config) (s s' : SchedulerState) (labels : List Label)
    (hrun : (scheduler cfg).Trace s (.checkGpus :: labels ++ [.qualificationsFinished]) s')
    (hlabels : .qualificationsFinished ∉ labels) :
    ∃ asked : List (Qualification × QualificationReply),
      asked.map Prod.fst = s.checks.qualifying ∧
      asked.map Prod.snd = labels.filterMap Label.reply? ∧
      finishQualifications s.daemon.pools (overOf asked) = .ok s'.daemon.pools ∧
      s'.checks.qualifying = keptOf asked ∧
      (s'.checks.qualifying ++ overOf asked).Perm s.checks.qualifying ∧
      ((∀ entry ∈ asked, isOver entry = true → entry.2.Settles entry.1) ↔
        ∀ entry ∈ asked, entry.2.Sound entry.1) := by
  obtain ⟨mid, hwalk, hfinish⟩ := LTS.Trace.append_iff.1 hrun
  obtain ⟨start, hstart, hwalk⟩ := LTS.Trace.cons_iff.1 hwalk
  obtain ⟨last, hfinish, hnil⟩ := LTS.Trace.cons_iff.1 hfinish
  cases hnil
  cases step_of_perform hstart with
  | checkGpus =>
  obtain ⟨asked, rest, hreplies, hwalked⟩ := finishing_trace hwalk rfl hlabels
  cases step_of_perform hfinish with
  | qualificationsFinished hok =>
  obtain ⟨hrest, hended⟩ := Phase.finishing.inj hwalked.phase
  have htodo := hwalked.todo
  have hkept := hwalked.qualifying
  have hpools := hwalked.pools
  rw [← hrest, List.append_nil] at htodo
  rw [List.nil_append] at hended hkept
  refine ⟨asked, htodo.symm, hreplies.symm, ?_, hkept, ?_, ?_⟩
  · rw [← hended, ← hpools]
    exact hok
  · exact hkept ▸ htodo ▸ overOf_append_keptOf asked
  · exact forall₂_congr fun entry _ => QualificationReply.settles_iff

/-! ### A node that becomes unreachable -/

/-- A controller with one node that has one card. -/
def testedNode : SchedulerState := .init [.new ⟨8, 16384, [⟨0, "fake", 24576, ""⟩]⟩]

/-- The node's daemon has just started, so its card is to be tested, and the test is launched. -/
def startTest : List Label :=
  [.checkGpus, .qualificationsFinished, .gpusBlocked [⟨true, some [⟨0, [], none, none, none⟩],
    fun _ => true⟩] 0 0, .qualificationLaunched (.ok (.remote 17 "qualify-1" "gpu0")) 0,
    .gpusChecked]

/-- The node of `testedNode`, on another machine. -/
def oneNode : Config := ⟨[⟨"gpu-1", some "gpu-1"⟩], "/home/user"⟩

/-- Past the timeout the node says that the test still runs; `killed` is what it replies to the
cancel. -/
def timedOut (killed : Except String Response) : List Label :=
  [.qualificationPolled (RemoteExecutor.poll (.ok (.polled none))) (RemoteExecutor.cancel killed)
    (qualifyTimeout + 1)]

/-- The cancel gets no reply, and the card is handed out again although nobody stopped the test. -/
theorem testedNode_givenBack : ∃ s s', testedNode.run oneNode startTest = some s ∧
    (scheduler oneNode).Trace s (.checkGpus :: timedOut (.error "no reply") ++
      [.qualificationsFinished]) s' ∧
    s.daemon.pools.map ResourcePool.availableVramMb = [[0]] ∧
    s'.daemon.pools.map ResourcePool.availableVramMb = [[24576]] ∧ s'.checks.qualifying = [] ∧
    ∀ reply ∈ (timedOut (.error "no reply")).filterMap Label.reply?, ∀ qualification,
      ¬ reply.Settles qualification := by
  refine ⟨_, _, rfl, SchedulerState.trace_of_run rfl, by decide, by decide, by decide, ?_⟩
  intro reply hreply qualification
  rw [List.mem_singleton.1 hreply]
  rintro (⟨exitCode, h⟩ | h | ⟨-, -, h⟩) <;> cases h

/-- The node kills the test, and its card is given back with a sound answer. -/
theorem testedNode_stopped : ∃ s s', (scheduler oneNode).Trace s
      (.checkGpus :: timedOut (.ok .killed) ++ [.qualificationsFinished]) s' ∧
    s'.daemon.pools.map ResourcePool.availableVramMb = [[24576]] ∧
    ∃ asked : List (Qualification × QualificationReply),
      asked.map Prod.fst = s.checks.qualifying ∧
      ∀ entry ∈ asked, isOver entry = true → entry.2.Settles entry.1 := by
  have hrun : ∃ s s', testedNode.run oneNode startTest = some s ∧ (scheduler oneNode).Trace s
      (.checkGpus :: timedOut (.ok .killed) ++ [.qualificationsFinished]) s' ∧
      s'.daemon.pools.map ResourcePool.availableVramMb = [[24576]] :=
    ⟨_, _, rfl, SchedulerState.trace_of_run rfl, by decide⟩
  obtain ⟨s, s', -, htrace, hfree⟩ := hrun
  obtain ⟨asked, hasked, hreplies, -, -, -, hiff⟩ :=
    finished_iff oneNode s s' (timedOut (.ok .killed)) htrace (by simp [timedOut])
  refine ⟨s, s', htrace, hfree, asked, hasked, hiff.2 fun entry hentry => ?_⟩
  have hreply : entry.2 ∈ asked.map Prod.snd := List.mem_map_of_mem hentry
  rw [hreplies] at hreply
  rw [List.mem_singleton.1 hreply]
  exact fun _ => rfl

end Roster
