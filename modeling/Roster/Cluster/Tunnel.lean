import Roster.Data.Latch
import Roster.Ipc.Exchange
import Roster.LTS.Descent

/-!
# The tunnel to a node

A task for each node on another machine keeps its ssh tunnel up: it asks the node's daemon for its
info every two seconds, and starts ssh again when that exits.  What it learns goes into two places,
a flag that the scheduler reads before it places or sends anything, and a record for people to read.
The flag is written first, the record once its lock is free; meanwhile any task whose request to the
node fails takes the flag away.

* `tunnel_tells` : what the flag, the record and the wait before the next start of ssh are, in terms
  of all that happened.
* `tunnel_recovers` : a node that works again is taken back after four steps of its task at most.
* `any_release_understood` : the answer of another release of the daemon is told apart from none.
-/

namespace Roster

open Serde

/-! ### The record -/

/-- Where a node stands. -/
inductive NodeState
  | online
  | tunnelDown (reason : String)
  | daemonDown
  | noReply
  | versionMismatch (reason : String)
  deriving DecidableEq

namespace NodeState

def isOnline : NodeState → Bool
  | .online => true
  | _ => false

/-- The kind of a state, whatever its reason. -/
def kind : NodeState → ℕ
  | .online => 0
  | .tunnelDown _ => 1
  | .daemonDown => 2
  | .noReply => 3
  | .versionMismatch _ => 4

/-- As it is shown. -/
def text : NodeState → String
  | .online => "online"
  | .tunnelDown reason => "ssh tunnel down: " ++ reason
  | .daemonDown => "node reachable, roster daemon not running"
  | .noReply => "no reply in 3 s (network stalled or daemon hung)"
  | .versionMismatch reason => "version mismatch: " ++ reason

end NodeState

/-- What a health check or the end of ssh says. -/
structure Report where
  state : NodeState
  info : Option Ipc.NodeInfo
  deriving DecidableEq

/-- A node's state and when it began. -/
structure Health where
  state : NodeState
  since : DateTime
  /-- The last answer of the node's daemon. -/
  info : Option Ipc.NodeInfo
  deriving DecidableEq

/-- `Health::enter`: the next state, and whether its kind is another one. -/
def Health.enter (health : Health) (now : DateTime) (report : Report) : Health × Bool :=
  let changed := decide (health.state.kind ≠ report.state.kind)
  ({ state := report.state
     since := if changed then now else health.since
     info := report.info.or health.info }, changed)

/-! ### Health checks -/

/-- `check_version`; `own` is the version of this machine. -/
def checkVersion (own : String) (info : Ipc.NodeInfo) : Except String Unit :=
  if info.version ≠ own then
    .error ("node runs roster " ++ info.version ++ ", this machine runs " ++ own)
  else .ok ()

/-- How the request of a health check goes. -/
inductive Probe
  | notConnected (error : String)
  | replied (response : Ipc.Response)
  | failed (error : String)
  | elapsed

/-- `Tunnel::check`. -/
def check (own : String) : Probe → Report
  | .notConnected error => ⟨.tunnelDown error, none⟩
  | .replied (.info info) =>
    match checkVersion own info with
    | .ok () => ⟨.online, some info⟩
    | .error error => ⟨.versionMismatch error, some info⟩
  | .replied _ | .failed _ => ⟨.daemonDown, none⟩
  | .elapsed => ⟨.noReply, none⟩

/-- What comes of the request in three seconds. -/
def Probe.ofExchange : Option (Except String Ipc.Response) → Probe
  | some (.ok response) => .replied response
  | some (.error error) => .failed error
  | none => .elapsed

/-- `ssh_exited`. -/
def sshExited : Except String String → Report
  | .ok status => ⟨.tunnelDown ("ssh exited (" ++ status ++ ")"), none⟩
  | .error error => ⟨.tunnelDown ("ssh wait failed: " ++ error), none⟩

theorem check_online {own : String} {probe : Probe} (h : (check own probe).state = .online) :
    ∃ info, (check own probe).info = some info ∧ info.version = own := by
  unfold check at h ⊢
  split at h
  · cases h
  · next info =>
    cases hversion : checkVersion own info with
    | error e => simp only [hversion] at h; cases h
    | ok _ =>
      refine ⟨info, rfl, ?_⟩
      by_contra hne
      rw [checkVersion, if_pos hne] at hversion
      cases hversion
  all_goals cases h

/-- **The answer of any release of the daemon is understood**, as long as it shows the members this
release has: they may come in any order with entries that are unknown here, and those with a default
may be missing.  So a node of another release is reported with both versions and its answer, not as
one whose daemon is down, whatever comes of the connection after the line. -/
theorem any_release_understood (json : Ipc.SerdeJson) (times : Rfc3339) (own : String)
    {info : Ipc.NodeInfo} {entries : List (Value Scalar × Value Scalar)}
    (hnamed : Named (.map entries)) (htag : valuesOf scalars "type" entries = [key "Info"])
    (hshown : (Ipc.NodeInfo.derived times).Shows info
      (entries.filter fun entry => scalars.name? entry.1 ≠ some "type"))
    (rest : List UInt8) (ends : Lines.Ending) :
    check own (.ofExchange (Ipc.readResponse json times
      ⟨Utf8.encode ((json.toString (.map entries)).toList ++ ['\n']) ++ rest, ends⟩)) =
      ⟨if info.version = own then .online
       else .versionMismatch ("node runs roster " ++ info.version ++ ", this machine runs " ++ own),
       some info⟩ := by
  have hread : (Ipc.Response.tagged times).codec.read (.map entries) = .ok (.info info) :=
    Tagged.read_of_shows (t := Ipc.Response.tagged times) (i := (7 : Fin 15)) htag hshown
  have hparse := json.parse_document (Ipc.Response.tagged times) hnamed
    (Ipc.SerdeJson.isWhitespace_lineFeed fun c (hc : c ∈ ['\n']) => List.mem_singleton.1 hc)
  rw [Ipc.readResponse, Lines.readLine_line (json.oneLine _)]
  dsimp only
  rw [hparse, hread]
  simp only [Except.mapError, Probe.ofExchange, check, checkVersion]
  by_cases hversion : info.version = own <;> simp [hversion]

/-- The answer of a daemon that has nothing to say about GPUs. -/
def plainInfo (version : String) : Ipc.NodeInfo :=
  ⟨version, 7, "/r.socket", 0, false, ⟨1, 1024, []⟩, []⟩

/-- As a release writes it that lacks a member and has another one. -/
def otherRelease : List (Value Scalar × Value Scalar) :=
  (key "type", key "Info") :: (key "uptime", .scalar (.int 5)) ::
    ((Ipc.NodeInfo.derived Ipc.nanoseconds).entries (plainInfo "0.0.9")).filter fun entry =>
      scalars.name? entry.1 ≠ some "jobs_survive_restart"

theorem other_release_noticed :
    check "0.1.0" (.ofExchange (Ipc.readResponse Ipc.compactJson Ipc.nanoseconds
      ⟨Utf8.encode ((Ipc.compactJson.toString (.map otherRelease)).toList ++ ['\n']) ++ [],
        .failed "connection reset"⟩)) =
      ⟨.versionMismatch "node runs roster 0.0.9, this machine runs 0.1.0",
        some (plainInfo "0.0.9")⟩ := by
  have hwritten := Derived.shows_entries (d := Ipc.NodeInfo.derived Ipc.nanoseconds)
    (plainInfo "0.0.9")
  have hshown := (hwritten.dropped (i := (4 : Fin 7)) rfl).unknown rfl
    (by decide : ∀ i, Ipc.NodeInfo.names i ≠ "uptime") (.scalar (.int 5))
  have hnamed : Named (.map otherRelease) := by
    cases Derived.named_entries (d := Ipc.NodeInfo.derived Ipc.nanoseconds) (plainInfo "0.0.9") with
    | map hkeys hvalues =>
      refine .map (List.forall_mem_cons.2 ⟨⟨_, rfl⟩, List.forall_mem_cons.2 ⟨⟨_, rfl⟩, ?_⟩⟩)
        (List.forall_mem_cons.2 ⟨.scalar _, List.forall_mem_cons.2 ⟨.scalar _, ?_⟩⟩)
      · exact fun entry hentry => hkeys entry (List.mem_of_mem_filter hentry)
      · exact fun entry hentry => hvalues entry (List.mem_of_mem_filter hentry)
  exact any_release_understood Ipc.compactJson Ipc.nanoseconds "0.1.0" hnamed rfl hshown [] _

/-! ### Opening a tunnel -/

/-- One round of `Tunnel::open`: a health check, whether the ten seconds are over then, and whether
ssh has exited. -/
structure OpenRound where
  probe : Probe
  late : Bool
  exited : Except String (Option String)

/-- `Tunnel::open`, once ssh is started; nothing while it still waits. -/
def openTunnel (own target : String) : List OpenRound → Option (Except String Ipc.NodeInfo)
  | [] => none
  | attempt :: attempts =>
    match check own attempt.probe with
    | ⟨.online, some info⟩ => some (.ok info)
    | ⟨.versionMismatch reason, _⟩ => some (.error (NodeState.versionMismatch reason).text)
    | ⟨state, _⟩ =>
      if attempt.late then
        some (.error ("no answer through the ssh tunnel to " ++ target ++ ": " ++ state.text))
      else match attempt.exited with
        | .error error => some (.error error)
        | .ok (some status) => some (.error ("ssh to " ++ target ++ " exited: " ++ status))
        | .ok none => openTunnel own target attempts

theorem version_of_openTunnel {own target : String} {attempts : List OpenRound} {info : Ipc.NodeInfo}
    (h : openTunnel own target attempts = some (.ok info)) : info.version = own := by
  induction attempts with
  | nil => cases h
  | cons attempt attempts ih =>
    rw [openTunnel] at h
    split at h
    · next found hcheck =>
      obtain rfl := Except.ok.inj (Option.some.inj h)
      have honline : (check own attempt.probe).state = .online := congrArg Report.state hcheck
      obtain ⟨info', hinfo, hversion⟩ := check_online honline
      rw [hcheck] at hinfo
      exact Option.some.inj hinfo ▸ hversion
    · cases h
    · split at h
      · cases h
      · split at h
        · cases h
        · cases h
        · exact ih h

/-! ### The task of a tunnel -/

/-- Where `supervise` is. -/
inductive Tunnel.Phase
  /-- It waits for ssh to exit, or for the next health check. -/
  | watching
  /-- The flag is written, the record is not. -/
  | reporting (report : Report)
  /-- It waits before it starts ssh again. -/
  | backingOff
  deriving DecidableEq

/-- The tunnel to one node. -/
structure Tunnel where
  /-- The flag of the scheduler. -/
  online : Bool
  health : Health
  phase : Tunnel.Phase
  /-- The task has not seen its ssh exit. -/
  running : Bool
  /-- Seconds to wait before ssh is started again. -/
  backoff : ℕ
  deriving DecidableEq

/-- The steps of a tunnel. -/
inductive TunnelEvent
  /-- A health check is over. -/
  | checked (probe : Probe)
  | exited (status : Except String String)
  /-- The task gets the lock of the record. -/
  | reported (now : DateTime)
  /-- The wait is over and ssh is started again, or fails to start. -/
  | restarted (spawned : Except String Unit)
  /-- A request of another task fails: `RemoteExecutor::lost`. -/
  | lost (reason : String)

namespace Tunnel

/-- `set_state` up to the lock of the record. -/
def learns (s : Tunnel) (report : Report) : Tunnel :=
  { s with online := report.state.isOnline, phase := .reporting report }

/-- One step. -/
def perform (own : String) (s : Tunnel) : TunnelEvent → Option Tunnel
  | .checked probe =>
    -- an ssh that has exited is noticed before the next check is due
    if s.phase = .watching ∧ s.running then
      let report := check own probe
      let backoff := if report.state.isOnline then 1 else s.backoff
      some ({ s with backoff := backoff }.learns report)
    else none
  | .exited status =>
    if s.phase = .watching then some ({ s with running := false }.learns (sshExited status))
    else none
  | .reported now =>
    match s.phase with
    | .reporting report =>
      some { s with
        health := (s.health.enter now report).1
        phase := if s.running then .watching else .backingOff }
    | _ => none
  | .restarted spawned =>
    if s.phase = .backingOff then
      some { s with
        phase := .watching, running := spawned.isOk, backoff := min (s.backoff * 2) 30 }
    else none
  | .lost _ => some { s with online := false }

/-- A tunnel when `connect` has opened it: the daemon answered with `info`. -/
def opened (start : DateTime) (info : Ipc.NodeInfo) : Tunnel :=
  ⟨true, ⟨.online, start, some info⟩, .watching, true, 1⟩

end Tunnel

/-- A tunnel, with the other tasks that send requests through it. -/
def tunnel (own : String) : LTS Tunnel TunnelEvent := .ofPerform (Tunnel.perform own)

/-! ### What happened -/

namespace TunnelEvent

variable (own : String)

/-- The report of a step. -/
def report? : TunnelEvent → Option Report
  | .checked probe => some (check own probe)
  | .exited status => some (sshExited status)
  | _ => none

/-- When a report went into the record. -/
def time? : TunnelEvent → Option DateTime
  | .reported now => some now
  | _ => none

/-- A health check finds the daemon up, in this version. -/
def answers : TunnelEvent → Bool
  | .checked probe => (check own probe).state.isOnline
  | _ => false

/-- Something fails: a request, a health check or ssh. -/
def fails : TunnelEvent → Bool
  | .checked probe => !(check own probe).state.isOnline
  | .exited _ | .lost _ => true
  | _ => false

/-- Ssh is started again. -/
def restarts : TunnelEvent → Bool
  | .restarted _ => true
  | _ => false

/-- The failures since the daemon last answered a health check. -/
def latch : Latch TunnelEvent Unit where
  resets := answers own
  cause event := if fails own event then some () else none

end TunnelEvent

open TunnelEvent

/-- What went into the record and when, from what `connect` found on. -/
def recorded (own : String) (start : DateTime) (info : Ipc.NodeInfo) (events : List TunnelEvent) :
    List (DateTime × Report) :=
  (start, ⟨.online, some info⟩) ::
    (events.filterMap time?).zip (events.filterMap (report? own))

/-- A record sums up what went into it: the last state, since when there was no other kind, and the
last answer of the daemon. -/
structure Health.Sums (health : Health) (entries : List (DateTime × Report)) : Prop where
  state : entries.getLast?.map (·.2.state) = some health.state
  info : health.info = entries.reverse.findSome? (·.2.info)
  since : ∃ before first block, entries = before ++ first :: block ∧ first.1 = health.since ∧
    (∀ entry ∈ first :: block, entry.2.state.kind = health.state.kind) ∧
    ∀ entry ∈ before.getLast?, entry.2.state.kind ≠ health.state.kind

/-- What a report does to a record that sums up the ones before. -/
theorem Health.Sums.enter {health : Health} {entries : List (DateTime × Report)}
    (h : health.Sums entries) (now : DateTime) (report : Report) :
    (health.enter now report).1.Sums (entries ++ [(now, report)]) where
  state := by simp [Health.enter]
  info := by
    rw [List.reverse_append, List.reverse_singleton, List.singleton_append, List.findSome?_cons,
      ← h.info]
    cases hinfo : report.info <;> simp [Health.enter, hinfo]
  since := by
    by_cases hkind : health.state.kind = report.state.kind
    · obtain ⟨before, first, block, rfl, hfirst, hblock, hbefore⟩ := h.since
      refine ⟨before, first, block ++ [(now, report)], by simp, ?_, ?_, ?_⟩
      · simpa [Health.enter, hkind] using hfirst
      · rw [← List.cons_append]
        intro entry hentry
        rcases List.mem_append.1 hentry with hold | hnew
        · exact (hblock entry hold).trans hkind
        · obtain rfl := List.mem_singleton.1 hnew
          rfl
      · intro entry hentry
        exact hkind ▸ hbefore entry hentry
    -- a report of another kind begins a block of its own
    · refine ⟨entries, (now, report), [], rfl, ?_, ?_, ?_⟩
      · simp [Health.enter, hkind]
      · intro entry hentry
        obtain rfl := List.mem_singleton.1 hentry
        rfl
      · intro entry hentry
        have hstate := h.state
        rw [Option.mem_def.1 hentry, Option.map_some, Option.some.injEq] at hstate
        rw [hstate]
        exact hkind

/-- The last answer of the daemon is of this version while the record says that it is online. -/
theorem Health.Sums.agrees {own : String} {health : Health} {entries : List (DateTime × Report)}
    (h : health.Sums entries)
    (hchecked : ∀ entry ∈ entries, entry.2.state = .online →
      ∃ info, entry.2.info = some info ∧ info.version = own)
    (honline : health.state = .online) : ∃ info, health.info = some info ∧ info.version = own := by
  obtain ⟨entry, hlast, hstate⟩ := Option.map_eq_some_iff.1 h.state
  obtain ⟨info, hinfo, hversion⟩ :=
    hchecked entry (List.mem_of_getLast? hlast) (hstate.trans honline)
  obtain ⟨before, rfl⟩ := List.getLast?_eq_some_iff.1 hlast
  refine ⟨info, ?_, hversion⟩
  rw [h.info, List.reverse_append, List.reverse_singleton, List.singleton_append,
    List.findSome?_cons, hinfo]

/-! ### What a tunnel tells -/

/-- What a tunnel is after these events. -/
structure Tunnel.Tells (own : String) (start : DateTime) (info : Ipc.NodeInfo)
    (events : List TunnelEvent) (s : Tunnel) : Prop where
  /-- The flag is set unless something failed since the daemon last answered. -/
  online : s.online = !((latch own).since events).any (fails own)
  health : s.health.Sums (recorded own start info events)
  /-- The waits double from one start of ssh to the next until the daemon answers again. -/
  backoff : s.backoff = min (2 ^ ((latch own).since events).countP restarts) 30
  /-- All reports but the one in hand are in the record. -/
  pending : ∃ reports, reports.length = (events.filterMap time?).length ∧
    events.filterMap (report? own) = reports ++
      match s.phase with
      | .reporting report => [report]
      | _ => []

theorem any_since_concat (own : String) (events : List TunnelEvent) (event : TunnelEvent) :
    ((latch own).since (events ++ [event])).any (fails own) =
      (!answers own event && (((latch own).since events).any (fails own) || fails own event)) := by
  rw [Latch.since_concat]
  cases h : answers own event <;> simp [latch, h]

theorem countP_since_concat (own : String) (events : List TunnelEvent) (event : TunnelEvent) :
    ((latch own).since (events ++ [event])).countP restarts =
      if answers own event then 0
      else ((latch own).since events).countP restarts + if restarts event then 1 else 0 := by
  rw [Latch.since_concat]
  cases h : answers own event <;> simp [latch, h, List.countP_append, List.countP_singleton]

/-- A report waits in hand until its time comes. -/
theorem recorded_waiting {own : String} {start : DateTime} {info : Ipc.NodeInfo}
    {events : List TunnelEvent} {event : TunnelEvent} {reports : List Report}
    (hlength : reports.length = (events.filterMap time?).length)
    (hreports : events.filterMap (report? own) = reports) (htime : time? event = none) :
    recorded own start info (events ++ [event]) = recorded own start info events := by
  rw [recorded, recorded, List.filterMap_append, List.filterMap_append, hreports]
  congr 1
  have hzip : (events.filterMap time? ++ []).zip (reports ++ [event].filterMap (report? own)) = _ :=
    List.zip_append hlength.symm
  simpa [htime] using hzip

/-- The report in hand goes into the record. -/
theorem recorded_reported {own : String} {start now : DateTime} {info : Ipc.NodeInfo}
    {events : List TunnelEvent} {reports : List Report} {report : Report}
    (hlength : reports.length = (events.filterMap time?).length)
    (hreports : events.filterMap (report? own) = reports ++ [report]) :
    recorded own start info (events ++ [.reported now]) =
      recorded own start info events ++ [(now, report)] := by
  have hold : (events.filterMap time? ++ []).zip (reports ++ [report]) = _ :=
    List.zip_append hlength.symm
  rw [List.append_nil, List.zip_nil_left, List.append_nil] at hold
  simp only [recorded, List.filterMap_append, List.filterMap_cons, List.filterMap_nil, time?,
    report?, hreports, List.append_nil, List.cons_append, hold, List.zip_append hlength.symm]
  rfl

theorem Tunnel.Tells.opened (own : String) (start : DateTime) (info : Ipc.NodeInfo) :
    (Tunnel.opened start info).Tells own start info [] where
  online := rfl
  health := {
    state := rfl
    info := rfl
    since := ⟨[], (start, ⟨.online, some info⟩), [], rfl, rfl, by simp [Tunnel.opened], by simp⟩ }
  backoff := rfl
  pending := ⟨[], rfl, rfl⟩

/-- A report comes in hand. -/
theorem Tunnel.Tells.learns {own : String} {start : DateTime} {info : Ipc.NodeInfo}
    {events : List TunnelEvent} {event : TunnelEvent} {report : Report} {s s' : Tunnel}
    (h : s.Tells own start info events) (hphase : s.phase = .watching)
    (htime : time? event = none) (hreport : report? own event = some report)
    (hanswers : answers own event = report.state.isOnline)
    (hfails : fails own event = !report.state.isOnline) (hrestarts : restarts event = false)
    (hbackoff : s'.backoff = if report.state.isOnline then 1 else s.backoff)
    (hhealth : s'.health = s.health) :
    (s'.learns report).Tells own start info (events ++ [event]) := by
  obtain ⟨reports, hlength, hreports⟩ := h.pending
  simp only [hphase, List.append_nil] at hreports
  refine ⟨?_, ?_, ?_, reports, ?_, ?_⟩
  · rw [any_since_concat, hanswers, hfails]
    cases hstate : report.state.isOnline <;> simp [Tunnel.learns, hstate]
  · rw [recorded_waiting hlength hreports htime]
    exact hhealth ▸ h.health
  · rw [countP_since_concat, hanswers, hrestarts]
    change s'.backoff = _
    rw [hbackoff, h.backoff]
    split <;> rfl
  · rw [List.filterMap_append, List.filterMap_cons_none htime]
    simpa using hlength
  · rw [List.filterMap_append, List.filterMap_cons_some hreport, hreports]
    rfl

/-- One step more. -/
theorem Tunnel.Tells.step {own : String} {start : DateTime} {info : Ipc.NodeInfo}
    {events : List TunnelEvent} {event : TunnelEvent} {s s' : Tunnel}
    (h : s.Tells own start info events) (hs : s.perform own event = some s') :
    s'.Tells own start info (events ++ [event]) := by
  obtain ⟨reports, hlength, hreports⟩ := h.pending
  cases event with
  | checked probe =>
    obtain ⟨⟨hphase, -⟩, hs⟩ := Option.ite_none_right_eq_some.1 hs
    obtain rfl := Option.some.inj hs
    exact h.learns hphase rfl rfl rfl rfl rfl rfl rfl
  | exited status =>
    obtain ⟨hphase, hs⟩ := Option.ite_none_right_eq_some.1 hs
    obtain rfl := Option.some.inj hs
    have hoffline : (sshExited status).state.isOnline = false := by cases status <;> rfl
    exact h.learns hphase rfl rfl hoffline.symm (by rw [hoffline]; rfl) rfl (by simp [hoffline]) rfl
  | reported now =>
    cases hphase : s.phase with
    | reporting report =>
      simp only [hphase] at hreports
      simp only [Tunnel.perform, hphase, Option.some.injEq] at hs
      subst hs
      refine ⟨?_, ?_, ?_, reports ++ [report], ?_, ?_⟩
      · rw [any_since_concat, h.online]
        simp [answers, fails]
      · rw [recorded_reported hlength hreports]
        exact h.health.enter now report
      · rw [countP_since_concat]
        exact h.backoff
      · simp [hlength, time?]
      · rw [List.filterMap_append, hreports]
        cases s.running <;> simp [report?]
    | watching => simp [Tunnel.perform, hphase] at hs
    | backingOff => simp [Tunnel.perform, hphase] at hs
  | restarted spawned =>
    obtain ⟨hphase, hs⟩ := Option.ite_none_right_eq_some.1 hs
    obtain rfl := Option.some.inj hs
    simp only [hphase, List.append_nil] at hreports
    refine ⟨?_, ?_, ?_, reports, ?_, ?_⟩
    · rw [any_since_concat, h.online]
      simp [answers, fails]
    · rw [recorded_waiting hlength hreports rfl]
      exact h.health
    · rw [countP_since_concat]
      change min (s.backoff * 2) 30 = _
      rw [h.backoff]
      simp only [answers, restarts, Bool.false_eq_true, if_false, if_true, pow_succ]
      omega
    · rw [List.filterMap_append, List.filterMap_cons_none rfl]
      simpa using hlength
    · rw [List.filterMap_append, List.filterMap_cons_none rfl, hreports]
      rfl
  | lost reason =>
    obtain rfl := Option.some.inj hs
    refine ⟨?_, ?_, ?_, reports, ?_, ?_⟩
    · simp [any_since_concat, answers, fails]
    · rw [recorded, List.filterMap_append, List.filterMap_append, List.filterMap_cons_none rfl,
        List.filterMap_cons_none rfl]
      simp only [List.filterMap_nil, List.append_nil]
      exact h.health
    · rw [countP_since_concat]
      exact h.backoff
    · rw [List.filterMap_append, List.filterMap_cons_none rfl]
      simpa using hlength
    · rw [List.filterMap_append, List.filterMap_cons_none rfl]
      simpa using hreports

/-- Over a whole run. -/
theorem Tunnel.Tells.run {own : String} {start : DateTime} {info : Ipc.NodeInfo}
    {events : List TunnelEvent} {s : Tunnel}
    (h : (tunnel own).Trace (.opened start info) events s) : s.Tells own start info events := by
  induction events using List.reverseRecOn generalizing s with
  | nil =>
    cases h
    exact .opened own start info
  | append_singleton events event ih =>
    obtain ⟨mid, hmid, hlast⟩ := LTS.Trace.append_iff.1 h
    obtain ⟨s', hs, hnil⟩ := LTS.Trace.cons_iff.1 hlast
    cases hnil
    exact (ih hmid).step hs

/-- Every report that says online brings an answer of this version. -/
theorem recorded_agree {own : String} {start : DateTime} {info : Ipc.NodeInfo}
    (hversion : info.version = own) (events : List TunnelEvent) :
    ∀ entry ∈ recorded own start info events, entry.2.state = .online →
      ∃ info, entry.2.info = some info ∧ info.version = own := by
  refine List.forall_mem_cons.2 ⟨fun _ => ⟨info, rfl, hversion⟩, fun entry hentry honline => ?_⟩
  obtain ⟨event, -, hevent⟩ := List.mem_filterMap.1 (List.of_mem_zip hentry).2
  cases event with
  | checked probe =>
    obtain heq := Option.some.inj hevent
    exact heq ▸ check_online (heq ▸ honline)
  | exited status =>
    obtain heq := Option.some.inj hevent
    rw [← heq] at honline
    cases status <;> cases honline
  | reported _ | restarted _ | lost _ => cases hevent

/-- **What a tunnel tells**, after any run: the scheduler's flag is set exactly while nothing failed
since the daemon last answered a health check in this version; the record says what was found last,
since when it was of this kind, and the last answer that came; and ssh is started again after
waits that double from 1 s to 30 s until the daemon answers. -/
theorem tunnel_tells {own target : String} {attempts : List OpenRound} {start : DateTime}
    {info : Ipc.NodeInfo} {events : List TunnelEvent} {s : Tunnel}
    (hopen : openTunnel own target attempts = some (.ok info))
    (h : (tunnel own).Trace (.opened start info) events s) :
    (s.online = true ↔ ∀ event ∈ (latch own).since events, fails own event = false) ∧
      s.health.Sums (recorded own start info events) ∧
      (s.health.state = .online → ∃ info, s.health.info = some info ∧ info.version = own) ∧
      s.backoff = min (2 ^ ((latch own).since events).countP restarts) 30 := by
  have htells := Tunnel.Tells.run h
  have hversion := version_of_openTunnel hopen
  refine ⟨?_, htells.health, htells.health.agrees (recorded_agree hversion events), htells.backoff⟩
  rw [htells.online]
  simp

/-- Ssh exits, and is started again; then a launch fails. -/
def exitsOnce : List TunnelEvent :=
  [.exited (.ok "exit status: 255"), .reported 5, .restarted (.ok ()), .lost "no reply"]

theorem exitsOnce_told : ∃ s, (tunnel "0.1.0").Trace (.opened 0 (plainInfo "0.1.0")) exitsOnce s ∧
    ¬ s.online = true ∧ s.backoff = 2 := by
  have hrun : (tunnel "0.1.0").Trace (.opened 0 (plainInfo "0.1.0")) exitsOnce _ :=
    .cons rfl (.cons rfl (.cons rfl (.cons rfl (.nil _))))
  have hopen : openTunnel "0.1.0" "node" [⟨.replied (.info (plainInfo "0.1.0")), false, .ok none⟩] =
      some (.ok (plainInfo "0.1.0")) := rfl
  obtain ⟨honline, -, -, hbackoff⟩ := tunnel_tells hopen hrun
  refine ⟨_, hrun, fun h => ?_, hbackoff.trans (by decide)⟩
  exact absurd (honline.1 h) (by decide)

/-! ### A node that works again -/

/-- Nothing fails any more: the daemon answers, ssh can be started and does not exit, and requests
come through. -/
def TunnelEvent.Healthy (own : String) (s : Tunnel) : TunnelEvent → Prop
  | .checked probe => (check own probe).state.isOnline = true
  | .exited _ => s.running = false
  | .reported _ => True
  | .restarted spawned => spawned.isOk = true
  | .lost _ => False

namespace Tunnel

/-- How many steps it takes at most to set the flag. -/
def stepsToFlag (s : Tunnel) : ℕ :=
  match s.phase, s.running with
  | .watching, true => if s.online then 0 else 1
  | .reporting _, true => if s.online then 0 else 2
  | .backingOff, _ => 2
  | .reporting _, false => 3
  | .watching, false => 4

/-- How many steps it takes at most until the record says online. -/
def stepsToRecord (s : Tunnel) : ℕ :=
  match s.phase, s.running with
  | .watching, true => if s.health.state.isOnline then 0 else 2
  | .reporting report, true =>
    if report.state.isOnline then if s.health.state.isOnline then 0 else 1 else 3
  | .backingOff, _ => 3
  | .reporting _, false => 4
  | .watching, false => 5

/-- How often ssh is still to be started. -/
def restartsLeft (s : Tunnel) : ℕ :=
  match s.phase, s.running with
  | .watching, true | .reporting _, true => 0
  | _, _ => 1

variable {own : String} {s s' : Tunnel} {event : TunnelEvent}

/-- What a step is while everything works. -/
theorem works_cases (h : ((tunnel own).guard (Healthy own)).step s event s') :
    (∃ probe, event = .checked probe ∧ s.phase = .watching ∧ s.running = true ∧
      (check own probe).state.isOnline = true ∧ s'.online = true ∧ s'.running = true ∧
      s'.health = s.health ∧ s'.phase = .reporting (check own probe)) ∨
    (∃ status, event = .exited status ∧ s.phase = .watching ∧ s.running = false ∧
      s'.running = false ∧ s'.phase = .reporting (sshExited status)) ∨
    (∃ now report, event = .reported now ∧ s.phase = .reporting report ∧
      s'.online = s.online ∧ s'.running = s.running ∧ s'.health.state = report.state ∧
      s'.phase = if s.running then .watching else .backingOff) ∨
    (∃ spawned, event = .restarted spawned ∧ s.phase = .backingOff ∧ s'.running = true ∧
      s'.phase = .watching) := by
  obtain ⟨hworks, hs⟩ := h
  cases event with
  | checked probe =>
    obtain ⟨⟨hphase, hrunning⟩, hs⟩ := Option.ite_none_right_eq_some.1 hs
    obtain rfl := Option.some.inj hs
    exact .inl ⟨probe, rfl, hphase, hrunning, hworks, hworks, hrunning, rfl, rfl⟩
  | exited status =>
    obtain ⟨hphase, hs⟩ := Option.ite_none_right_eq_some.1 hs
    obtain rfl := Option.some.inj hs
    exact .inr (.inl ⟨status, rfl, hphase, hworks, rfl, rfl⟩)
  | reported now =>
    cases hphase : s.phase with
    | reporting report =>
      simp only [tunnel, LTS.ofPerform, perform, hphase, Option.some.injEq] at hs
      subst hs
      exact .inr (.inr (.inl ⟨now, report, rfl, rfl, rfl, rfl, rfl, rfl⟩))
    | watching => simp [tunnel, LTS.ofPerform, perform, hphase] at hs
    | backingOff => simp [tunnel, LTS.ofPerform, perform, hphase] at hs
  | restarted spawned =>
    obtain ⟨hphase, hs⟩ := Option.ite_none_right_eq_some.1 hs
    obtain rfl := Option.some.inj hs
    exact .inr (.inr (.inr ⟨spawned, rfl, hphase, hworks, rfl⟩))
  | lost reason => exact hworks.elim

theorem stepsToFlag_works (h : ((tunnel own).guard (Healthy own)).step s event s') :
    s'.stepsToFlag ≤ s.stepsToFlag - 1 := by
  rcases works_cases h with ⟨probe, -, hphase, hrunning, -, honline', hrunning', -, hphase'⟩ |
    ⟨status, -, hphase, hrunning, hrunning', hphase'⟩ |
    ⟨now, report, -, hphase, honline', hrunning', -, hphase'⟩ |
    ⟨spawned, -, hphase, hrunning', hphase'⟩
  · simp [stepsToFlag, hphase', hrunning', honline']
  · simp [stepsToFlag, hphase, hrunning, hphase', hrunning']
  · cases hrunning : s.running <;> cases honline : s.online <;>
      simp [stepsToFlag, hphase, hrunning, honline, hphase', hrunning', honline']
  · cases honline : s'.online <;>
      simp [stepsToFlag, hphase, hphase', hrunning', honline]

theorem stepsToRecord_works (h : ((tunnel own).guard (Healthy own)).step s event s') :
    s'.stepsToRecord ≤ s.stepsToRecord - 1 := by
  rcases works_cases h with
    ⟨probe, -, hphase, hrunning, hcheck, -, hrunning', hhealth, hphase'⟩ |
    ⟨status, -, hphase, hrunning, hrunning', hphase'⟩ |
    ⟨now, report, -, hphase, -, hrunning', hstate, hphase'⟩ |
    ⟨spawned, -, hphase, hrunning', hphase'⟩
  · cases hold : s.health.state.isOnline <;>
      simp [stepsToRecord, hphase, hrunning, hphase', hrunning', hcheck, hhealth, hold]
  · simp [stepsToRecord, hphase, hrunning, hphase', hrunning']
  · cases hrunning : s.running <;> cases hreport : report.state.isOnline <;>
      simp [stepsToRecord, hphase, hrunning, hreport, hphase', hrunning', hstate]
  · cases hold : s'.health.state.isOnline <;>
      simp [stepsToRecord, hphase, hphase', hrunning', hold]

theorem restartsLeft_works (h : ((tunnel own).guard (Healthy own)).step s event s') :
    s'.restartsLeft + (if restarts event then 1 else 0) ≤ s.restartsLeft := by
  rcases works_cases h with ⟨probe, rfl, hphase, hrunning, -, -, hrunning', -, hphase'⟩ |
    ⟨status, rfl, hphase, hrunning, hrunning', hphase'⟩ |
    ⟨now, report, rfl, hphase, -, hrunning', -, hphase'⟩ |
    ⟨spawned, rfl, hphase, hrunning', hphase'⟩
  · simp [restartsLeft, restarts, hphase, hrunning, hphase', hrunning']
  · simp [restartsLeft, restarts, hphase, hrunning, hphase', hrunning']
  · cases hrunning : s.running <;>
      simp [restartsLeft, restarts, hphase, hrunning, hphase', hrunning']
  · simp [restartsLeft, restarts, hphase, hphase', hrunning']

theorem exists_works (own : String) (s : Tunnel) :
    ∃ event s', ((tunnel own).guard (Healthy own)).step s event s' := by
  cases hphase : s.phase with
  | watching =>
    cases hrunning : s.running with
    | true =>
      have hcheck : (check own (.replied (.info (plainInfo own)))).state =
          .online := by simp [check, checkVersion, plainInfo]
      exact ⟨.checked _, _, by rw [Healthy, hcheck]; rfl, if_pos ⟨hphase, hrunning⟩⟩
    | false => exact ⟨.exited (.ok ""), _, hrunning, if_pos hphase⟩
  | reporting report =>
    obtain ⟨s', hs'⟩ : ∃ s', perform own s (.reported 0) = some s' := by
      simp only [perform, hphase, Option.some.injEq, exists_eq']
    exact ⟨.reported 0, s', trivial, hs'⟩
  | backingOff => exact ⟨.restarted (.ok ()), _, rfl, if_pos hphase⟩

theorem online_of_stepsToFlag (h : s.stepsToFlag = 0) : s.online = true := by
  by_contra honline
  unfold stepsToFlag at h
  split at h
  · simp [honline] at h
  · simp [honline] at h
  all_goals cases h

theorem recorded_of_stepsToRecord (h : s.stepsToRecord = 0) : s.health.state.isOnline = true := by
  by_contra honline
  unfold stepsToRecord at h
  split at h
  · simp [honline] at h
  · simp only [honline] at h
    split at h <;> cases h
  all_goals cases h

theorem stepsToFlag_le (s : Tunnel) : s.stepsToFlag ≤ 4 := by
  unfold stepsToFlag
  cases s.online <;> split <;> decide

theorem stepsToRecord_le (s : Tunnel) : s.stepsToRecord ≤ 5 := by
  unfold stepsToRecord
  cases s.health.state.isOnline <;> split <;> (try split) <;> decide

theorem restartsLeft_le (s : Tunnel) : s.restartsLeft ≤ 1 := by
  unfold restartsLeft
  split <;> decide

end Tunnel

/-- **A node that works again is taken back**, however its tunnel was left: as long as nothing fails
its task always has a step to do, and starts ssh once more at most, and after four steps the
scheduler's flag is set, after five the record says online. -/
theorem tunnel_recovers (own : String) (s : Tunnel) :
    (∃ event s', ((tunnel own).guard (Healthy own)).step s event s') ∧
      ∀ events s', ((tunnel own).guard (Healthy own)).Trace s events s' →
        events.countP restarts ≤ 1 ∧ (4 ≤ events.length → s'.online = true) ∧
          (5 ≤ events.length → s'.health.state.isOnline = true) := by
  refine ⟨Tunnel.exists_works own s, fun events s' h => ⟨?_, fun hlong => ?_, fun hlong => ?_⟩⟩
  · have hspent := h.spend restarts fun _ _ _ => Tunnel.restartsLeft_works
    have hleft := s.restartsLeft_le
    omega
  · have hdown := (h.descend (I := fun _ => True) (fun _ => true) trivial (fun _ _ _ _ _ => trivial)
      fun _ _ _ _ hst => Tunnel.stepsToFlag_works hst).2
    have hsteps := s.stepsToFlag_le
    refine Tunnel.online_of_stepsToFlag ?_
    simp only [List.countP_true] at hdown
    omega
  · have hdown := (h.descend (I := fun _ => True) (fun _ => true) trivial (fun _ _ _ _ _ => trivial)
      fun _ _ _ _ hst => Tunnel.stepsToRecord_works hst).2
    have hsteps := s.stepsToRecord_le
    refine Tunnel.recorded_of_stepsToRecord ?_
    simp only [List.countP_true] at hdown
    omega

/-- Ssh has exited, and all is well from then on. -/
def afterExit : Tunnel :=
  ⟨false, ⟨.online, 0, some (plainInfo "0.1.0")⟩, .reporting (sshExited (.ok "signal: 15")), false, 1⟩

theorem afterExit_recovers : ∃ s', s'.online = true ∧
    ((tunnel "0.1.0").guard (Healthy "0.1.0")).Trace afterExit
      [.reported 5, .restarted (.ok ()), .checked (.replied (.info (plainInfo "0.1.0"))),
        .reported 8] s' := by
  have hrun : ((tunnel "0.1.0").guard (Healthy "0.1.0")).Trace afterExit
      [.reported 5, .restarted (.ok ()), .checked (.replied (.info (plainInfo "0.1.0"))),
        .reported 8] _ :=
    .cons ⟨trivial, rfl⟩ (.cons ⟨rfl, rfl⟩ (.cons ⟨rfl, rfl⟩ (.cons ⟨trivial, rfl⟩ (.nil _))))
  exact ⟨_, ((tunnel_recovers "0.1.0" afterExit).2 _ _ hrun).2.1 (by decide), hrun⟩

end Roster
