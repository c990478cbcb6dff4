import Roster.Data.Utf8

/-!
# Lines on a connection

Who reads a line from a connection gets the bytes up to the line feed, or all that came before the
other end closed; a connection that fails or falls silent before the line feed gives no line, and
neither do bytes that are no text.

`Delivery` : how much of what was written comes through before the connection ends.

* `Delivery.readLine_whole` : a line that came through is read, whatever comes of the connection
  then.
* `Delivery.readLine_torn` : what is read of one that did not is only a first part of it.
-/

namespace Roster

namespace Lines

/-- How a connection goes on after what has come. -/
inductive Ending
  | closed
  | failed (error : String)
  | silent
  deriving DecidableEq

/-- What comes in on a connection. -/
structure Incoming where
  bytes : List UInt8
  ends : Ending

/-- What a reader of one line gets; it waits while the connection is silent. -/
inductive LineRead
  | line (text : List Char)
  | failed (error : String)
  | waits
  deriving DecidableEq

/-- The bytes up to the first line feed, and that. -/
def takeLine : List UInt8 → List UInt8
  | [] => []
  | b :: bytes => if b = 0x0A then [0x0A] else b :: takeLine bytes

/-- `AsyncBufReadExt::read_line`. -/
def readLine (incoming : Incoming) : LineRead :=
  if 0x0A ∈ incoming.bytes ∨ incoming.ends = .closed then
    match Utf8.fromUtf8 (takeLine incoming.bytes) with
    | some text => .line text
    | none => .failed "stream did not contain valid UTF-8"
  else
    match incoming.ends with
    | .failed error => .failed error
    | _ => .waits

/-- How much of what one end wrote comes through, and how the connection goes on. -/
structure Delivery where
  bytes : ℕ
  ends : Ending

namespace Delivery

/-- What comes of the text. -/
def of (delivery : Delivery) (text : List Char) : Incoming :=
  ⟨(Utf8.encode text).take delivery.bytes, delivery.ends⟩

/-- All of the text comes through, and a line feed or the end of the connection after it. -/
def Whole (delivery : Delivery) (text : List Char) : Prop :=
  Utf8.byteLength text < delivery.bytes ∨
    Utf8.byteLength text = delivery.bytes ∧ delivery.ends = .closed

instance (delivery : Delivery) (text : List Char) : Decidable (delivery.Whole text) :=
  inferInstanceAs (Decidable (_ ∨ _))

end Delivery

/-! ### The bytes of a line -/

variable {bytes rest : List UInt8} {text p : List Char} {delivery : Delivery}

theorem takeLine_of_notMem (h : 0x0A ∉ bytes) : takeLine bytes = bytes := by
  induction bytes with
  | nil => rfl
  | cons b bytes ih =>
    obtain ⟨hb, hbytes⟩ := not_or.1 (List.mem_cons.not.1 h)
    rw [takeLine, if_neg (Ne.symm hb), ih hbytes]

theorem takeLine_line (h : 0x0A ∉ bytes) (rest : List UInt8) :
    takeLine (bytes ++ 0x0A :: rest) = bytes ++ [0x0A] := by
  induction bytes with
  | nil => rfl
  | cons b bytes ih =>
    obtain ⟨hb, hbytes⟩ := not_or.1 (List.mem_cons.not.1 h)
    rw [List.cons_append, takeLine, if_neg (Ne.symm hb), ih hbytes]
    rfl

/-- A whole line is read, whatever comes after it. -/
theorem readLine_line (h : '\n' ∉ text) (rest : List UInt8) (ends : Ending) :
    readLine ⟨Utf8.encode (text ++ ['\n']) ++ rest, ends⟩ = .line (text ++ ['\n']) := by
  have hbytes : Utf8.encode (text ++ ['\n']) ++ rest = Utf8.encode text ++ 0x0A :: rest := by
    rw [Utf8.encode_append, List.append_assoc]
    rfl
  have htake := takeLine_line (mt Utf8.lineFeed_mem_encode.1 h) rest
  have hread : Utf8.fromUtf8 (Utf8.encode text ++ [0x0A]) = some (text ++ ['\n']) :=
    Utf8.fromUtf8_eq_some.2 (Utf8.encode_append text ['\n'])
  rw [hbytes, readLine, htake, hread, if_pos (.inl (by simp))]

namespace Delivery

/-- **A line that came through** is read, but for blanks after it. -/
theorem readLine_whole (hline : '\n' ∉ text) (h : delivery.Whole text) :
    ∃ blanks : List Char, (∀ c ∈ blanks, c = '\n') ∧
      readLine (delivery.of (text ++ ['\n'])) = .line (text ++ blanks) := by
  rcases h with hlt | ⟨heq, hends⟩
  · have hall : Utf8.byteLength (text ++ ['\n']) ≤ delivery.bytes := by
      rw [Utf8.byteLength_append]
      exact hlt
    refine ⟨['\n'], fun c hc => List.mem_singleton.1 hc, ?_⟩
    have hread := readLine_line hline [] delivery.ends
    rwa [List.append_nil, ← List.take_of_length_le hall] at hread
  · have htake : (Utf8.encode (text ++ ['\n'])).take delivery.bytes = Utf8.encode text := by
      rw [Utf8.encode_append, ← heq, ← Utf8.length_encode, List.take_left]
    refine ⟨[], List.forall_mem_nil _, ?_⟩
    rw [of, htake, readLine, if_pos (.inr hends),
      takeLine_of_notMem (mt Utf8.lineFeed_mem_encode.1 hline), Utf8.fromUtf8_eq_some.2 rfl,
      List.append_nil]

/-- **Of a line that did not come through** only a first part is read, if anything is. -/
theorem readLine_torn (hline : '\n' ∉ text) (h : ¬ delivery.Whole text)
    (hread : readLine (delivery.of (text ++ ['\n'])) = .line p) : ∃ q, q ≠ [] ∧ p ++ q = text := by
  obtain ⟨hle, hends⟩ := not_or.1 h
  rw [not_lt] at hle
  -- so the line feed did not come
  have htake : (Utf8.encode (text ++ ['\n'])).take delivery.bytes =
      (Utf8.encode text).take delivery.bytes := by
    rw [Utf8.encode_append, List.take_append_of_le_length hle]
  have hnone : 0x0A ∉ (Utf8.encode text).take delivery.bytes := fun hmem =>
    hline (Utf8.lineFeed_mem_encode.1 (List.mem_of_mem_take hmem))
  rw [of, htake, readLine, takeLine_of_notMem hnone] at hread
  dsimp only at hread
  split at hread
  · next hcloses =>
    have hclosed := hcloses.resolve_left hnone
    split at hread
    · next first hfirst =>
      obtain rfl := LineRead.line.inj hread
      have hbytes := Utf8.fromUtf8_eq_some.1 hfirst
      have hsplit : Utf8.encode first ++ (Utf8.encode text).drop delivery.bytes =
          Utf8.encode text := by
        rw [hbytes, List.take_append_drop]
      obtain ⟨q, hq⟩ := Utf8.prefix_of_encode hsplit
      refine ⟨q, ?_, hq⟩
      rintro rfl
      rw [List.append_nil] at hq
      -- a closed connection would have made all of the text the line
      have hlength := congrArg List.length hbytes
      rw [hq, List.length_take, Utf8.length_encode] at hlength
      exact hends ⟨by omega, hclosed⟩
    · cases hread
  · split at hread <;> cases hread

end Delivery

end Lines

end Roster
