import Roster.Data.Utf8

/-!
# The end of a log

`read_tail` reads the last bytes of a log and begins at the next whole line.  The window may begin
inside of a character, whose rest then reads as replacements, but these come before the first line
feed that is seen (`readTail_cut`): what is returned is a suffix of the file, and the longest one
that starts after a line feed of the window (`readTail_exact`).
-/

namespace Roster

open Utf8

/-- First line of a log's end when the log is longer than what was asked for. -/
def cutNotice : String := "[earlier output cut]"

/-- What comes after the first line feed. -/
def afterLine (text : List Char) : List Char := (text.dropWhile (· ≠ '\n')).tail

/-- `read_tail` on the bytes of the file. -/
def readTail (file : List UInt8) (bytes : ℕ) : String :=
  let start := file.length - bytes
  let text := fromUtf8Lossy (file.drop start)
  if start = 0 then String.ofList text
  else cutNotice ++ "\n" ++ String.ofList (afterLine text)

/-- A suffix of the file that starts right after a line feed in its last `bytes` bytes. -/
def StartsLine (file : List UInt8) (bytes : ℕ) (rest : List UInt8) : Prop :=
  rest.length < bytes ∧ ∃ front, file = front ++ 0x0A :: rest

/-- The longest of these suffixes, and nothing if there is none. -/
def IsWholeLines (file : List UInt8) (bytes : ℕ) (rest : List UInt8) : Prop :=
  (StartsLine file bytes rest ∧
      ∀ other, StartsLine file bytes other → other.length ≤ rest.length) ∨
    rest = [] ∧ ∀ other, ¬ StartsLine file bytes other

variable {log text more : List Char} {bytes : ℕ}

theorem afterLine_append (h : '\n' ∉ text) : afterLine (text ++ more) = afterLine more := by
  rw [afterLine, List.dropWhile_append_of_pos, afterLine]
  intro c hc
  exact decide_eq_true fun heq => h (heq ▸ hc)

@[simp] theorem afterLine_cons (text : List Char) : afterLine ('\n' :: text) = text := rfl

theorem afterLine_eq_nil (h : '\n' ∉ text) : afterLine text = [] := by
  rw [← List.append_nil text, afterLine_append h]
  rfl

theorem afterLine_suffix (text : List Char) : afterLine text <:+ text :=
  (List.tail_suffix _).trans (List.dropWhile_suffix _)

/-- A short file is returned as it is. -/
theorem readTail_short (h : byteLength log ≤ bytes) :
    readTail (encode log) bytes = String.ofList log := by
  rw [readTail, length_encode, Nat.sub_eq_zero_of_le h, if_pos rfl, List.drop_zero,
    fromUtf8Lossy_encode]

/-- Of a long file, what comes after the first line feed of some window is returned: the window
begins with whole characters, and at the last `bytes` bytes or in a character that has no line
feed. -/
theorem readTail_cut (h : bytes < byteLength log) :
    ∃ front window, log = front ++ window ∧ byteLength front ≤ byteLength log - bytes ∧
      (∀ line rest, window = line ++ '\n' :: rest →
        byteLength log - bytes ≤ byteLength (front ++ line)) ∧
      readTail (encode log) bytes = cutNotice ++ "\n" ++ String.ofList (afterLine window) := by
  obtain ⟨front, cut, back, k, heq, hfront, hend, hcut, hread⟩ :=
    fromUtf8Lossy_drop log (Nat.sub_le (byteLength log) bytes)
  have hnoCut : '\n' ∉ cut := fun hmem => absurd (hcut _ hmem) (by decide)
  have hnoReplaced : '\n' ∉ List.replicate k replacement := by
    rw [List.mem_replicate]
    rintro ⟨-, heq⟩
    exact absurd heq (by decide)
  refine ⟨front, cut ++ back, by rw [heq, List.append_assoc], hfront, ?_, ?_⟩
  · -- the first line feed comes after the character that is cut
    intro line rest hline
    rcases List.append_eq_append_iff.1 hline with ⟨more, rfl, -⟩ | ⟨more, rfl, hmore⟩
    · rw [← List.append_assoc, byteLength_append]
      exact hend.trans (Nat.le_add_right _ _)
    · cases more with
      | nil => rwa [List.append_nil] at hend
      | cons c more =>
        obtain ⟨rfl, -⟩ := List.cons.inj hmore
        exact absurd (List.mem_append_right _ List.mem_cons_self) hnoCut
  · rw [readTail, length_encode, hread, if_neg (Nat.sub_ne_zero_of_lt h),
      afterLine_append hnoReplaced, afterLine_append hnoCut]

/-- Such a suffix begins inside of the window, if it reaches back that far. -/
theorem StartsLine.of_append {front window other : List UInt8}
    (h : StartsLine (front ++ window) bytes other)
    (hfront : front.length ≤ (front ++ window).length - bytes) :
    ∃ before, window = before ++ 0x0A :: other := by
  obtain ⟨hlength, before, heq⟩ := h
  have hshort : front.length ≤ before.length := by
    rw [heq, List.length_append, List.length_cons] at hfront
    omega
  obtain ⟨middle, rfl⟩ :=
    List.prefix_of_prefix_length_le (List.prefix_append front window)
      (heq ▸ List.prefix_append before _) hshort
  rw [List.append_assoc, List.append_cancel_left_eq] at heq
  exact ⟨middle, heq⟩

/-- What comes after the first line feed is the longest of what comes after one. -/
theorem length_le_of_first {line rest before other : List UInt8}
    (h : line ++ 0x0A :: rest = before ++ 0x0A :: other) (hline : 0x0A ∉ line) :
    other.length ≤ rest.length := by
  rcases List.append_eq_append_iff.1 h with ⟨more, rfl, hmore⟩ | ⟨more, rfl, hmore⟩
  · have hlength := congrArg List.length hmore
    simp only [List.length_append, List.length_cons] at hlength
    omega
  · cases more with
    | nil => rw [(List.cons.inj hmore).2]
    | cons b more =>
      obtain ⟨rfl, -⟩ := List.cons.inj hmore
      exact absurd (List.mem_append_right _ List.mem_cons_self) hline

/-- Where every line feed of the window lies in the last bytes, the longest of these suffixes starts
after the first one. -/
theorem isWholeLines_afterLine {front window : List Char}
    (hlong : bytes < byteLength (front ++ window))
    (hfront : byteLength front ≤ byteLength (front ++ window) - bytes)
    (hfeeds : ∀ line rest, window = line ++ '\n' :: rest →
      byteLength (front ++ window) - bytes ≤ byteLength (front ++ line)) :
    IsWholeLines (encode (front ++ window)) bytes (encode (afterLine window)) := by
  have hinside : ∀ other, StartsLine (encode (front ++ window)) bytes other →
      ∃ before, encode window = before ++ 0x0A :: other := by
    intro other hother
    rw [encode_append] at hother
    refine hother.of_append ?_
    rwa [← encode_append, length_encode, length_encode]
  by_cases hfeed : '\n' ∈ window
  · obtain ⟨line, rest, rfl, hline⟩ := List.eq_append_cons_of_mem hfeed
    have hfirst := hfeeds line rest rfl
    have hbyte : String.utf8EncodeChar '\n' = [0x0A] := by decide
    rw [afterLine_append hline, afterLine_cons]
    refine .inl ⟨⟨?_, encode (front ++ line), ?_⟩, fun other hother => ?_⟩
    · have hone : '\n'.utf8Size = 1 := rfl
      simp only [byteLength_append, byteLength_cons] at hfirst hlong
      rw [length_encode]
      omega
    · rw [← List.append_assoc, encode_append, encode_cons, hbyte]
      rfl
    · obtain ⟨before, hbefore⟩ := hinside other hother
      rw [encode_append, encode_cons, hbyte] at hbefore
      exact length_le_of_first hbefore (mt lineFeed_mem_encode.1 hline)
  · rw [afterLine_eq_nil hfeed]
    refine .inr ⟨rfl, fun other hother => ?_⟩
    obtain ⟨before, hbefore⟩ := hinside other hother
    exact hfeed (lineFeed_mem_encode.1 (hbefore ▸ List.mem_append_right _ List.mem_cons_self))

/-- **The end of a log is exact.**  A file of at most `bytes` bytes is returned as a whole, and of a
longer one the longest suffix that starts right after a line feed of its last `bytes` bytes; there
is no replacement in it that is not in the file. -/
theorem readTail_exact (log : List Char) (bytes : ℕ) :
    (byteLength log ≤ bytes → readTail (encode log) bytes = String.ofList log) ∧
      (bytes < byteLength log → ∃ rest,
        readTail (encode log) bytes = cutNotice ++ "\n" ++ String.ofList rest ∧ rest <:+ log ∧
          IsWholeLines (encode log) bytes (encode rest)) ∧
      (readTail (encode log) bytes).toList.count replacement ≤ log.count replacement := by
  have hlong : bytes < byteLength log → ∃ rest,
      readTail (encode log) bytes = cutNotice ++ "\n" ++ String.ofList rest ∧ rest <:+ log ∧
        IsWholeLines (encode log) bytes (encode rest) := by
    intro hlong
    obtain ⟨front, window, rfl, hfront, hfeeds, hread⟩ := readTail_cut hlong
    exact ⟨afterLine window, hread, (afterLine_suffix window).trans (List.suffix_append _ _),
      isWholeLines_afterLine hlong hfront hfeeds⟩
  refine ⟨readTail_short, hlong, ?_⟩
  rcases Nat.lt_or_ge bytes (byteLength log) with hcut | hshort
  · obtain ⟨rest, hread, hsuffix, -⟩ := hlong hcut
    have hnotice : (cutNotice ++ "\n").toList.count replacement = 0 := by decide
    rw [hread, String.toList_append, String.toList_ofList, List.count_append, hnotice, Nat.zero_add]
    exact hsuffix.sublist.count_le _
  · rw [readTail_short hshort, String.toList_ofList]

end Roster
