import Roster.Data.JsonText
import Roster.Data.Lines
import Roster.Ipc.Protocol
import Roster.Scheduler.Reason
import Mathlib.Data.List.DropRight

/-!
# One request and one response

A client writes its request as one line and reads one line; the daemon reads one line, dispatches
what it says and writes one line.  A connection can break at any byte, so that each side gets only
the first part of what the other one wrote, and it can fail or fall silent then.

`exchange_allOrNothing` : what the daemon executes is the request that was sent, or nothing, and
what the client takes for the response is the response, or the daemon's word that it got no request.
-/

namespace Roster

open Serde Lines

namespace Ipc

/-! ### Texts -/

/-- `serde_json`'s texts.  A document is written without line feeds and read back; a mapping is
written between braces, and a text that breaks off before the closing one is no document. -/
structure SerdeJson where
  toString : Value Scalar → String
  fromStr : String → Except String (Value Scalar)
  /-- How the error of a derived reader is shown. -/
  describe : EnumError → String
  fromStr_toString : ∀ v, Named v → fromStr (toString v) = .ok v
  oneLine : ∀ v, '\n' ∉ (toString v).toList
  braces : ∀ entries, ∃ inner, (toString (.map entries)).toList = '\x7b' :: inner ++ ['\x7d']
  torn : ∀ entries p q, Named (.map entries) → p ++ q = (toString (.map entries)).toList →
    q ≠ [] → ∃ e, fromStr (String.ofList p) = .error e

namespace SerdeJson

variable (json : SerdeJson) {E : Type} (t : Tagged E)

/-- A message as a text. -/
def textOf (e : E) : List Char := (json.toString (t.codec.write e)).toList

/-- `serde_json::to_string`, and the line feed after it. -/
def line (e : E) : List Char := json.textOf t e ++ ['\n']

/-- `serde_json::from_str` of a trimmed line. -/
def parse (line : List Char) : Except String E := do
  let document ← json.fromStr (String.ofList (trimSegment line))
  (t.codec.read document).mapError json.describe

/-! ### Whole and torn lines -/

theorem exists_textOf (e : E) : ∃ inner, json.textOf t e = '\x7b' :: inner ++ ['\x7d'] :=
  json.braces _

theorem isWhitespace_lineFeed {blanks : List Char} (h : ∀ c ∈ blanks, c = '\n') :
    ∀ c ∈ blanks, isWhitespace c = true := by
  intro c hc
  rw [h c hc]
  decide

/-- Only the blanks after a text between braces are trimmed. -/
theorem trimSegment_line {inner blanks : List Char}
    (hblanks : ∀ c ∈ blanks, isWhitespace c = true) :
    trimSegment ('\x7b' :: inner ++ ['\x7d'] ++ blanks) = '\x7b' :: inner ++ ['\x7d'] := by
  have hopen : isWhitespace '\x7b' = false := by decide
  have hclose : isWhitespace '\x7d' = false := by decide
  have hreverse : ∀ c ∈ blanks.reverse, isWhitespace c = true :=
    fun c hc => hblanks c (List.mem_reverse.1 hc)
  rw [trimSegment, List.cons_append, List.cons_append, List.dropWhile_cons_of_neg (by simp [hopen]),
    ← List.cons_append, ← List.cons_append, List.reverse_append,
    List.dropWhile_append_of_pos hreverse, List.reverse_append, List.reverse_singleton,
    List.singleton_append, List.dropWhile_cons_of_neg (by simp [hclose])]
  simp

/-- What is left of the first part of a text is a first part of it. -/
theorem exists_trimSegment (p : List Char) :
    ∃ q, trimSegment ('\x7b' :: p) ++ q = '\x7b' :: p := by
  have hopen : isWhitespace '\x7b' = false := by decide
  rw [trimSegment, List.dropWhile_cons_of_neg (by simp [hopen])]
  exact List.rdropWhile_prefix isWhitespace _

/-- A whole line is the document on it. -/
theorem parse_document {entries : List (Value Scalar × Value Scalar)}
    (hnamed : Named (.map entries)) {blanks : List Char}
    (hblanks : ∀ c ∈ blanks, isWhitespace c = true) :
    json.parse t ((json.toString (.map entries)).toList ++ blanks) =
      (t.codec.read (.map entries)).mapError json.describe := by
  obtain ⟨inner, hinner⟩ := json.braces entries
  rw [parse, hinner, trimSegment_line hblanks, ← hinner, String.ofList_toList,
    json.fromStr_toString _ hnamed, ok_bind]

/-- A whole line is the message. -/
theorem parse_textOf (e : E) {blanks : List Char} (hblanks : ∀ c ∈ blanks, isWhitespace c = true) :
    json.parse t (json.textOf t e ++ blanks) = .ok e := by
  refine (json.parse_document t (t.codec.named e) hblanks).trans ?_
  have hread : t.codec.read (.map (t.entriesOf (t.split e).1 (t.split e).2)) = .ok e :=
    t.codec.read_write e
  rw [hread]
  rfl

/-- A torn line is no message. -/
theorem parse_torn {e : E} {p q : List Char} (h : p ++ q = json.textOf t e) (hq : q ≠ []) :
    ∃ error, json.parse t p = .error error := by
  have htorn : ∃ q', q' ≠ [] ∧ trimSegment p ++ q' = json.textOf t e := by
    cases p with
    | nil => exact ⟨q, hq, h⟩
    | cons c p =>
      obtain ⟨inner, hinner⟩ := json.exists_textOf t e
      rw [hinner, List.cons_append, List.cons_append] at h
      obtain rfl := (List.cons.inj h).1
      obtain ⟨r, hr⟩ := exists_trimSegment p
      refine ⟨r ++ q, List.append_ne_nil_of_right_ne_nil r hq, ?_⟩
      rw [← List.append_assoc, hr, hinner, List.cons_append, List.cons_append, h]
  obtain ⟨q', hq', h⟩ := htorn
  obtain ⟨error, herror⟩ := json.torn _ _ q' (t.codec.named e) h hq'
  refine ⟨error, ?_⟩
  rw [parse, herror]
  rfl

/-- **What a reader makes of what comes through of a line**: the message if that is all of it. -/
theorem parse_whole (e : E) {delivery : Delivery} (h : delivery.Whole (json.textOf t e)) :
    ∃ line, line ≠ [] ∧ readLine (delivery.of (json.line t e)) = .line line ∧
      json.parse t line = .ok e := by
  obtain ⟨blanks, hblanks, hread⟩ := delivery.readLine_whole (json.oneLine _) h
  obtain ⟨inner, hinner⟩ := json.exists_textOf t e
  refine ⟨json.textOf t e ++ blanks, ?_, hread,
    json.parse_textOf t e (isWhitespace_lineFeed hblanks)⟩
  rw [hinner, List.cons_append, List.cons_append]
  exact List.cons_ne_nil _ _

/-- And no message if not. -/
theorem parse_part {e : E} {delivery : Delivery} (h : ¬ delivery.Whole (json.textOf t e))
    {line : List Char} (hread : readLine (delivery.of (json.line t e)) = .line line) :
    ∃ error, json.parse t line = .error error := by
  obtain ⟨q, hq, hsplit⟩ := delivery.readLine_torn (json.oneLine _) h hread
  exact json.parse_torn t hsplit hq

end SerdeJson

/-! ### The two ends -/

section Ends

variable (json : SerdeJson) (times : Rfc3339) {σ : Type} (dispatch : Request → σ → Response × σ)

/-- `read_request`, which waits for a line for five seconds. -/
def readRequest (incoming : Incoming) : Except String Request :=
  match readLine incoming with
  | .waits => .error "read timeout"
  | .failed error => .error ("io error: " ++ error)
  | .line [] => .error "client disconnected"
  | .line line => (json.parse Request.tagged line).mapError ("deserialization error: " ++ ·)

/-- `handle_connection`: what the daemon writes, and its state afterwards. -/
def handleConnection (incoming : Incoming) (s : σ) : List Char × σ :=
  match readRequest json incoming with
  | .ok request =>
    let (response, s') := dispatch request s
    (json.line (Response.tagged times) response, s')
  | .error message => (json.line (Response.tagged times) (.error message), s)

/-- How the client reads the response; nothing while it waits. -/
def readResponse (incoming : Incoming) : Option (Except String Response) :=
  match readLine incoming with
  | .waits => none
  | .failed error => some (.error error)
  | .line line => some (json.parse (Response.tagged times) line)

/-- `client::exchange`, once connected: `sent` is what comes through of the request, and `received`
what then comes through of the response. -/
def exchange (request : Request) (sent received : Delivery) (s : σ) :
    Option (Except String Response) × σ :=
  let (response, s') :=
    handleConnection json times dispatch (sent.of (json.line Request.tagged request)) s
  (readResponse json times (received.of response), s')

variable {json times dispatch} {request : Request} {response : Response}
  {sent received : Delivery} {s : σ}

theorem readRequest_whole (h : sent.Whole (json.textOf Request.tagged request)) :
    readRequest json (sent.of (json.line Request.tagged request)) = .ok request := by
  obtain ⟨line, hne, hread, hparse⟩ := json.parse_whole Request.tagged request h
  rw [readRequest, hread]
  cases line with
  | nil => exact absurd rfl hne
  | cons c cs =>
    simp only [hparse]
    rfl

theorem readRequest_part (h : ¬ sent.Whole (json.textOf Request.tagged request)) :
    ∃ message, readRequest json (sent.of (json.line Request.tagged request)) =
      .error message := by
  rw [readRequest]
  split
  · exact ⟨_, rfl⟩
  · exact ⟨_, rfl⟩
  · exact ⟨_, rfl⟩
  · next line _ hread =>
    obtain ⟨error, herror⟩ := json.parse_part Request.tagged h hread
    rw [herror]
    exact ⟨_, rfl⟩

/-- The client gets the response that was written, if all of that comes through, and else none. -/
theorem readResponse_eq_ok {written : Response} :
    readResponse json times (received.of (json.line (Response.tagged times) written)) =
      some (.ok response) ↔ response = written ∧
        received.Whole (json.textOf (Response.tagged times) written) := by
  rw [readResponse]
  constructor
  · intro hresponse
    by_cases hwhole : received.Whole (json.textOf (Response.tagged times) written)
    · obtain ⟨line, -, hread, hparse⟩ := json.parse_whole (Response.tagged times) written hwhole
      rw [hread] at hresponse
      dsimp only at hresponse
      rw [hparse] at hresponse
      exact ⟨(Except.ok.inj (Option.some.inj hresponse)).symm, hwhole⟩
    · split at hresponse
      · cases hresponse
      · cases hresponse
      · next line hread =>
        obtain ⟨error, herror⟩ := json.parse_part (Response.tagged times) hwhole hread
        rw [herror] at hresponse
        cases hresponse
  · rintro ⟨rfl, hwhole⟩
    obtain ⟨line, -, hread, hparse⟩ := json.parse_whole (Response.tagged times) response hwhole
    rw [hread]
    dsimp only
    rw [hparse]

/-- **All or nothing**, at whatever byte the connection breaks in either direction, and however it
goes on then.  If the text of the request did not come through, the daemon does nothing, and what
response the client gets is an error of the daemon; if it did, the daemon executes the request that
was sent, and the client gets a response exactly if it is the daemon's and its text came through. -/
theorem exchange_allOrNothing (json : SerdeJson) (times : Rfc3339) {σ : Type}
    (dispatch : Request → σ → Response × σ) (request : Request) (sent received : Delivery) (s : σ) :
    (¬ sent.Whole (json.textOf Request.tagged request) →
      (exchange json times dispatch request sent received s).2 = s ∧
      ∀ response, (exchange json times dispatch request sent received s).1 =
        some (.ok response) → ∃ message, response = .error message) ∧
    (sent.Whole (json.textOf Request.tagged request) →
      (exchange json times dispatch request sent received s).2 = (dispatch request s).2 ∧
      ∀ response, (exchange json times dispatch request sent received s).1 =
        some (.ok response) ↔ response = (dispatch request s).1 ∧
          received.Whole (json.textOf (Response.tagged times) response)) := by
  constructor
  · intro hpart
    obtain ⟨message, hmessage⟩ := readRequest_part hpart
    rw [exchange, handleConnection, hmessage]
    exact ⟨rfl, fun response hresponse => ⟨message, (readResponse_eq_ok.1 hresponse).1⟩⟩
  · intro hwhole
    rw [exchange, handleConnection, readRequest_whole hwhole]
    refine ⟨rfl, fun response => readResponse_eq_ok.trans ?_⟩
    constructor
    · rintro ⟨rfl, hreceived⟩
      exact ⟨rfl, hreceived⟩
    · rintro ⟨rfl, hreceived⟩
      exact ⟨rfl, hreceived⟩

end Ends

/-! ### A ping -/

/-- How the errors of a derived reader are worded. -/
def describe : EnumError → String
  | .content .invalidType => "invalid type"
  | .content (.unknownField name expected) | .unknownVariant name expected =>
    "unknown \x60" ++ name ++ "\x60, expected one of " ++ String.intercalate ", " expected
  | .content (.duplicateField name) => "duplicate field \x60" ++ name ++ "\x60"
  | .content (.missingField name) => "missing field \x60" ++ name ++ "\x60"

/-- Compact JSON. -/
def compactJson : SerdeJson where
  toString v := String.ofList (JsonText.write v)
  fromStr s := (JsonText.read s).elim (.error "no JSON") .ok
  describe := describe
  fromStr_toString v hv := by rw [JsonText.read_write hv]; rfl
  oneLine v := by
    rw [String.toList_ofList]
    exact JsonText.newline_notMem_write v
  braces entries := by
    obtain ⟨inner, hinner⟩ := JsonText.exists_join '\x7d' (JsonText.writeEntries entries)
    exact ⟨inner, by rw [String.toList_ofList, JsonText.write, hinner, List.cons_append]⟩
  torn entries p q hv h hq := by
    rw [String.toList_ofList] at h
    rw [JsonText.read_torn hv h hq]
    exact ⟨_, rfl⟩

/-- Times in nanoseconds. -/
def nanoseconds : Rfc3339 where
  toText time := String.ofList (JsonText.write (.scalar (.int time)))
  ofText s := match JsonText.read s with
    | some (.scalar (.int time)) => some time
    | _ => none
  ofText_toText time := by rw [JsonText.read_write (.scalar _)]

/-- A daemon that counts its requests. -/
def countRequests (_ : Request) (count : ℕ) : Response × ℕ := (.pong, count + 1)

/-- A ping whose reply is cut off by an error is counted, and one that is cut off itself is not. -/
theorem ping_exchange :
    (compactJson.textOf Request.tagged .ping).length = 15 ∧
      (exchange compactJson nanoseconds countRequests .ping ⟨16, .silent⟩
        ⟨14, .failed "connection reset"⟩ 0).2 = 1 ∧
      (exchange compactJson nanoseconds countRequests .ping ⟨15, .silent⟩
        ⟨99, .closed⟩ 0).2 = 0 := by
  have hlength : (compactJson.textOf Request.tagged .ping).length = 15 := by decide
  have hbytes : Utf8.byteLength (compactJson.textOf Request.tagged .ping) = 15 := by decide
  have hwhole := (exchange_allOrNothing compactJson nanoseconds countRequests .ping ⟨16, .silent⟩
    ⟨14, .failed "connection reset"⟩ 0).2
  have hpart := (exchange_allOrNothing compactJson nanoseconds countRequests .ping ⟨15, .silent⟩
    ⟨99, .closed⟩ 0).1
  rw [Delivery.Whole, hbytes] at hwhole hpart
  exact ⟨hlength, (hwhole (by decide)).1, (hpart (by decide)).1⟩

end Ipc

end Roster
