import Roster.Scheduler.Reason

/-!
# A failed job is explained by the end of its log

`read_tail` cuts the last bytes of a log at the next line feed, and `exit_reason` takes lines apart
at line feeds and carriage returns.  A line that a carriage return starts before that first line
feed is lost, as is one that starts with the window itself.

`explained_iff` says for which logs the reason still has the last lines that begin in the window.
-/

namespace Roster

open Utf8

/-- `REASON_TAIL_BYTES`. -/
def reasonTailBytes : ℕ := 4096

/-! ### The lines to show -/

/-- The segments of a text, each with the byte it begins at; the text itself begins at `offset`. -/
def segmentsAt (offset : ℕ) : List Char → List (ℕ × List Char)
  | [] => [(offset, [])]
  | c :: cs =>
    if c = '\n' ∨ c = '\r' then (offset, []) :: segmentsAt (offset + c.utf8Size) cs
    else match segmentsAt (offset + c.utf8Size) cs with
      | [] => [(offset, [c])]
      | (_, segment) :: segments => (offset, c :: segment) :: segments

/-- The informative ones of these segments, as they are shown. -/
def linesOf (segments : List (List Char)) : List (List Char) :=
  (segments.map trimSegment).filter isInformative

/-- The informative segments that begin at byte `first` or after. -/
def linesFrom (first : ℕ) (log : List Char) : List (List Char) :=
  linesOf (((segmentsAt 0 log).filter fun segment => first ≤ segment.1).map Prod.snd)

/-- A reason that lists the last three of these lines. -/
def reasonOf (exitCode : Int32) (lines : List (List Char)) : String :=
  let ended :=
    if exitCode = -1 then "killed by a signal" else "exit " ++ toString exitCode.toInt
  if lines.isEmpty then ended
  else ended ++ ": " ++
    String.intercalate " | " ((lines.drop (lines.length - reasonLines)).map String.ofList)

/-- The byte after the first line feed at byte `first` or after, from `offset` on; the end of the
text if there is none. -/
def afterLineFeed (first : ℕ) : ℕ → List Char → ℕ
  | offset, [] => offset
  | offset, c :: cs =>
    if c = '\n' ∧ first ≤ offset then offset + c.utf8Size
    else afterLineFeed first (offset + c.utf8Size) cs

/-! ### Segments -/

variable {offset first : ℕ} {log text more : List Char} {c : Char}

theorem segmentsAt_map_snd (offset : ℕ) (text : List Char) :
    (segmentsAt offset text).map Prod.snd = splitSegments text := by
  induction text generalizing offset with
  | nil => rfl
  | cons c text ih =>
    rw [segmentsAt, splitSegments]
    split
    · rw [List.map_cons, ih]
    · have hrest := ih (offset + c.utf8Size)
      revert hrest
      cases segmentsAt (offset + c.utf8Size) text with
      | nil => intro hrest; rw [← hrest]; rfl
      | cons segment segments => intro hrest; rw [← hrest]; rfl

/-- The first segment begins with the text. -/
theorem segmentsAt_eq_cons (offset : ℕ) (text : List Char) :
    ∃ segment segments, segmentsAt offset text = (offset, segment) :: segments := by
  cases text with
  | nil => exact ⟨_, _, rfl⟩
  | cons c text =>
    rw [segmentsAt]
    split
    · exact ⟨_, _, rfl⟩
    · cases segmentsAt (offset + c.utf8Size) text <;> exact ⟨_, _, rfl⟩

/-- A separator ends a segment, and the next one begins behind it. -/
theorem segmentsAt_append_cons (offset : ℕ) (text more : List Char) (hc : c = '\n' ∨ c = '\r') :
    segmentsAt offset (text ++ c :: more) =
      segmentsAt offset text ++ segmentsAt (offset + byteLength text + c.utf8Size) more := by
  induction text generalizing offset with
  | nil =>
    rw [List.nil_append, segmentsAt.eq_def]
    simp only [if_pos hc]
    rfl
  | cons a text ih =>
    rw [List.cons_append, segmentsAt, segmentsAt, ih, byteLength_cons, ← Nat.add_assoc offset]
    split
    · rfl
    · obtain ⟨segment, segments, hsegments⟩ := segmentsAt_eq_cons (offset + a.utf8Size) text
      rw [hsegments]
      rfl

/-- A segment lies inside the text. -/
theorem segmentsAt_bounds {segment : ℕ × List Char} (h : segment ∈ segmentsAt offset text) :
    offset ≤ segment.1 ∧ segment.1 + byteLength segment.2 ≤ offset + byteLength text := by
  induction text generalizing offset segment with
  | nil =>
    obtain rfl := List.mem_singleton.1 h
    simp
  | cons c text ih =>
    rw [segmentsAt] at h
    rw [byteLength_cons]
    split at h
    · rcases List.mem_cons.1 h with rfl | h
      · simp
      · have hbounds := ih h
        omega
    · obtain ⟨head, segments, hsegments⟩ := segmentsAt_eq_cons (offset + c.utf8Size) text
      rw [hsegments] at h
      rcases List.mem_cons.1 h with rfl | h
      · have hbounds := ih (hsegments ▸ List.mem_cons_self)
        simp only [byteLength_cons] at hbounds ⊢
        omega
      · have hbounds := ih (hsegments ▸ List.mem_cons_of_mem _ h)
        omega

/-- The segments come in the order in which they begin. -/
theorem segmentsAt_sorted (offset : ℕ) (text : List Char) :
    (segmentsAt offset text).Pairwise fun a b => a.1 < b.1 := by
  induction text generalizing offset with
  | nil => exact List.pairwise_singleton _ _
  | cons c text ih =>
    have hpos := c.utf8Size_pos
    rw [segmentsAt]
    split
    · refine List.pairwise_cons.2 ⟨fun segment hmem => ?_, ih _⟩
      have hbounds := segmentsAt_bounds hmem
      dsimp only
      omega
    · obtain ⟨head, segments, hsegments⟩ := segmentsAt_eq_cons (offset + c.utf8Size) text
      have hsorted := ih (offset + c.utf8Size)
      rw [hsegments] at hsorted ⊢
      obtain ⟨hhead, hrest⟩ := List.pairwise_cons.1 hsorted
      refine List.pairwise_cons.2 ⟨fun segment hmem => ?_, hrest⟩
      have hlt := hhead segment hmem
      dsimp only at hlt ⊢
      omega

/-! ### Lines -/

theorem linesOf_append (segments more : List (List Char)) :
    linesOf (segments ++ more) = linesOf segments ++ linesOf more := by
  simp [linesOf]

/-- Lines from an earlier byte on are those before a later one, then those from there on. -/
theorem linesFrom_eq_append {first later : ℕ} (hle : first ≤ later) (log : List Char) :
    ∃ earlier, linesFrom first log = earlier ++ linesFrom later log ∧
      (earlier = [] ↔ ∀ segment ∈ segmentsAt 0 log, isInformative (trimSegment segment.2) = true →
        first ≤ segment.1 → later ≤ segment.1) := by
  have hsplit : ∀ segments : List (ℕ × List Char), segments.Pairwise (fun a b => a.1 < b.1) →
      segments.filter (fun segment => first ≤ segment.1) =
        segments.filter (fun segment => first ≤ segment.1 ∧ segment.1 < later) ++
          segments.filter fun segment => later ≤ segment.1 := by
    intro segments hsorted
    induction segments with
    | nil => rfl
    | cons segment segments ih =>
      obtain ⟨hhead, hrest⟩ := List.pairwise_cons.1 hsorted
      by_cases hlater : later ≤ segment.1
      · -- all that come after begin later still
        have hall : ∀ other ∈ segment :: segments, later ≤ other.1 := by
          intro other hmem
          rcases List.mem_cons.1 hmem with rfl | hmem
          · exact hlater
          · exact hlater.trans (hhead other hmem).le
        rw [List.filter_eq_self.2 (by grind), List.filter_eq_nil_iff.2 (by grind),
          List.filter_eq_self.2 (by grind), List.nil_append]
      · have hlt : segment.1 < later := Nat.lt_of_not_le hlater
        rw [List.filter_cons, List.filter_cons, List.filter_cons, ih hrest]
        by_cases hfirst : first ≤ segment.1 <;> simp [hfirst, hlt, hlater]
  refine ⟨linesOf (((segmentsAt 0 log).filter fun segment =>
    first ≤ segment.1 ∧ segment.1 < later).map Prod.snd), ?_, ?_⟩
  · rw [linesFrom, hsplit _ (segmentsAt_sorted 0 log), List.map_append, linesOf_append]
    rfl
  · rw [linesOf, List.filter_eq_nil_iff]
    simp only [List.mem_map, List.mem_filter, decide_eq_true_eq]
    grind

/-- What begins behind a separator are the segments of the text behind it. -/
theorem linesFrom_append_cons (text more : List Char) (hc : c = '\n' ∨ c = '\r') :
    linesFrom (byteLength text + c.utf8Size) (text ++ c :: more) =
      linesOf (splitSegments more) := by
  have hpos := c.utf8Size_pos
  rw [linesFrom, segmentsAt_append_cons 0 text more hc, Nat.zero_add, List.filter_append,
    List.filter_eq_nil_iff.2 fun segment hmem => ?_, List.filter_eq_self.2 fun segment hmem => ?_,
    List.nil_append, segmentsAt_map_snd]
  · have hbounds := segmentsAt_bounds hmem
    simpa using hbounds.1
  · have hbounds := segmentsAt_bounds hmem
    simp only [decide_eq_true_eq]
    omega

theorem byteLength_eq_zero (h : byteLength text = 0) : text = [] := by
  cases text with
  | nil => rfl
  | cons c text =>
    have hpos := c.utf8Size_pos
    rw [byteLength_cons] at h
    omega

/-- No line begins at the end of the log. -/
theorem linesFrom_byteLength (log : List Char) : linesFrom (byteLength log) log = [] := by
  rw [linesFrom, linesOf, List.filter_eq_nil_iff]
  simp only [List.mem_map, List.mem_filter, decide_eq_true_eq]
  rintro line ⟨text, ⟨segment, ⟨hmem, hlast⟩, rfl⟩, rfl⟩
  have hbounds := segmentsAt_bounds hmem
  rw [byteLength_eq_zero (by omega : byteLength segment.2 = 0)]
  decide

/-- The whole log, if the window reaches that far. -/
theorem linesFrom_zero (log : List Char) : linesFrom 0 log = linesOf (splitSegments log) := by
  simp [linesFrom, segmentsAt_map_snd]

/-! ### The first line feed of the window -/

/-- Line feeds before the window do not count. -/
theorem afterLineFeed_front (h : offset + byteLength text ≤ first) :
    afterLineFeed first offset (text ++ more) =
      afterLineFeed first (offset + byteLength text) more := by
  induction text generalizing offset with
  | nil => rfl
  | cons c text ih =>
    have hpos := c.utf8Size_pos
    rw [byteLength_cons] at h ⊢
    rw [List.cons_append, afterLineFeed, if_neg (by omega), ih (by omega), Nat.add_assoc]

theorem afterLineFeed_append (h : '\n' ∉ text) :
    afterLineFeed first offset (text ++ more) =
      afterLineFeed first (offset + byteLength text) more := by
  induction text generalizing offset with
  | nil => rfl
  | cons c text ih =>
    obtain ⟨hc, htext⟩ := not_or.1 (mt List.mem_cons.2 h)
    rw [List.cons_append, afterLineFeed, if_neg (fun hfeed => hc hfeed.1.symm), ih htext,
      byteLength_cons, Nat.add_assoc]

/-- The window begins before what comes behind its first line feed. -/
theorem le_afterLineFeed (h : first ≤ offset + byteLength text) :
    first ≤ afterLineFeed first offset text := by
  induction text generalizing offset with
  | nil => exact h
  | cons c text ih =>
    rw [byteLength_cons, ← Nat.add_assoc] at h
    rw [afterLineFeed]
    split
    · omega
    · exact ih h

/-- The notice that the log was cut is no line of it. -/
theorem linesOf_cutNotice (text : List Char) :
    linesOf (splitSegments (cutNotice ++ "\n" ++ String.ofList text).toList) =
      linesOf (splitSegments text) := by
  have htext : (cutNotice ++ "\n" ++ String.ofList text).toList =
      cutNotice.toList ++ '\n' :: text := by simp
  rw [htext, ← segmentsAt_map_snd 0, segmentsAt_append_cons 0 _ _ (.inl rfl), List.map_append,
    segmentsAt_map_snd, segmentsAt_map_snd, linesOf_append]
  have hnotice : linesOf (splitSegments cutNotice.toList) = [] := by decide +kernel
  rw [hnotice, List.nil_append]

/-- The lines that the end of a log has: all of them for a short log, and otherwise those that begin
behind the first line feed of the window. -/
theorem linesOf_readTail (log : List Char) (bytes : ℕ) :
    linesOf (splitSegments (readTail (encode log) bytes).toList) =
      if byteLength log ≤ bytes then linesFrom 0 log
      else linesFrom (afterLineFeed (byteLength log - bytes) 0 log) log := by
  by_cases hshort : byteLength log ≤ bytes
  · rw [if_pos hshort, readTail_short hshort, String.toList_ofList, linesFrom_zero]
  · obtain ⟨front, window, rfl, hfront, hfeeds, hread⟩ := readTail_cut (not_le.1 hshort)
    rw [if_neg hshort, hread, linesOf_cutNotice]
    clear hread hshort
    generalize byteLength (front ++ window) - bytes = first at hfront hfeeds ⊢
    rw [afterLineFeed_front (by rwa [Nat.zero_add]), Nat.zero_add]
    by_cases hfeed : '\n' ∈ window
    · -- behind the first line feed of the window
      obtain ⟨line, rest, rfl, hline⟩ := List.eq_append_cons_of_mem hfeed
      have hfirst := hfeeds line rest rfl
      rw [byteLength_append] at hfirst
      rw [afterLine_append hline, afterLine_cons, afterLineFeed_append hline, afterLineFeed,
        if_pos ⟨rfl, hfirst⟩, ← byteLength_append, ← List.append_assoc,
        linesFrom_append_cons _ _ (.inl rfl)]
    · -- nothing is left of a window without a line feed
      have hlast := @afterLineFeed_append (byteLength front) first window [] hfeed
      rw [List.append_nil, afterLineFeed, ← byteLength_append] at hlast
      rw [afterLine_eq_nil hfeed, hlast, linesFrom_byteLength]
      decide

/-! ### The reason -/

theorem exitReason_eq (exitCode : Int32) (tail : Option String) :
    exitReason exitCode tail =
      reasonOf exitCode (linesOf (splitSegments (tail.getD "").toList)) := rfl

/-- Lines in front of the last three do not show, and fewer lines give a shorter reason. -/
theorem reasonOf_append_iff (exitCode : Int32) (earlier lines : List (List Char)) :
    reasonOf exitCode lines = reasonOf exitCode (earlier ++ lines) ↔
      3 ≤ lines.length ∨ earlier = [] := by
  by_cases hmany : 3 ≤ lines.length
  · refine iff_of_true ?_ (.inl hmany)
    have hlast : (earlier ++ lines).drop ((earlier ++ lines).length - reasonLines) =
        lines.drop (lines.length - reasonLines) := by
      rw [List.length_append, List.drop_append, List.drop_eq_nil_of_le (by rw [reasonLines]; omega),
        List.nil_append]
      congr 1
      rw [reasonLines]
      omega
    have hne : lines ≠ [] := fun hnil => by simp [hnil] at hmany
    simp only [reasonOf, List.isEmpty_iff, hne, List.append_eq_nil_iff, and_false, hlast]
  · by_cases hnone : earlier = []
    · simp [hnone]
    · refine iff_of_false ?_ (by simp [hmany, hnone])
      -- some earlier line shows, so the reason with it is longer
      have hpos := List.length_pos_iff.2 hnone
      set shown := earlier.drop (earlier.length + lines.length - reasonLines) with hshown
      have hlast : (earlier ++ lines).drop ((earlier ++ lines).length - reasonLines) =
          shown ++ lines := by
        rw [List.length_append, List.drop_append_of_le_length (by rw [reasonLines]; omega)]
      have hsome : shown.map String.ofList ≠ [] := by
        rw [Ne, List.map_eq_nil_iff, hshown, List.drop_eq_nil_iff, reasonLines]
        omega
      simp only [reasonOf, List.isEmpty_iff, hnone, List.append_eq_nil_iff, false_and, if_false,
        hlast]
      intro heq
      have hlength := congrArg String.length heq
      by_cases hlines : lines = []
      · rw [if_pos hlines] at hlength
        simp only [String.length_append] at hlength
        have hcolon : ": ".length = 2 := rfl
        omega
      · rw [if_neg hlines, Nat.sub_eq_zero_of_le (by rw [reasonLines]; omega), List.drop_zero,
          List.map_append, String.intercalate_append_of_ne_nil hsome (by simpa using hlines)]
          at hlength
        simp only [String.length_append] at hlength
        have hbar : " | ".length = 3 := rfl
        omega

/-- **When the reason has the end of the log**: every line that begins in the window does so behind
its first line feed, or the last three do. -/
theorem explained_iff (log : List Char) (exitCode : Int32) :
    exitReason exitCode (some (readTail (encode log) reasonTailBytes)) =
        reasonOf exitCode (linesFrom (byteLength log - reasonTailBytes) log) ↔
      byteLength log ≤ reasonTailBytes ∨
        3 ≤ (linesFrom (afterLineFeed (byteLength log - reasonTailBytes) 0 log) log).length ∨
        ∀ segment ∈ segmentsAt 0 log, isInformative (trimSegment segment.2) = true →
          byteLength log - reasonTailBytes ≤ segment.1 →
          afterLineFeed (byteLength log - reasonTailBytes) 0 log ≤ segment.1 := by
  rw [exitReason_eq, Option.getD_some, linesOf_readTail]
  by_cases hshort : byteLength log ≤ reasonTailBytes
  · rw [if_pos hshort, Nat.sub_eq_zero_of_le hshort]
    exact iff_of_true rfl (.inl hshort)
  · rw [if_neg hshort, or_iff_right hshort]
    have hwindow : byteLength log - reasonTailBytes ≤
        afterLineFeed (byteLength log - reasonTailBytes) 0 log :=
      le_afterLineFeed (by omega)
    obtain ⟨earlier, hlines, hnone⟩ := linesFrom_eq_append hwindow log
    rw [hlines, reasonOf_append_iff, hnone]

/-! ### A progress bar -/

/-- A text without separators is one segment. -/
theorem segmentsAt_eq_singleton (h : ∀ c ∈ text, ¬ (c = '\n' ∨ c = '\r')) :
    segmentsAt offset text = [(offset, text)] := by
  induction text generalizing offset with
  | nil => rfl
  | cons c text ih =>
    obtain ⟨hc, htext⟩ := List.forall_mem_cons.1 h
    rw [segmentsAt, if_neg hc, ih htext]

theorem byteLength_replicate (n : ℕ) (c : Char) :
    byteLength (List.replicate n c) = n * c.utf8Size := by
  induction n with
  | zero => simp
  | succ n ih => rw [List.replicate_succ, byteLength_cons, ih, Nat.succ_mul, Nat.add_comm]

def dots : List Char := List.replicate 5000 '.'

/-- A line of dots that is redrawn, with the error in place of it. -/
def redrawnLog : List Char := dots ++ '\r' :: "out of memory".toList

theorem byteLength_redrawnLog : byteLength redrawnLog = 5014 := by
  rw [redrawnLog, byteLength_append, dots, byteLength_replicate]
  decide +kernel

theorem dots_plain : ∀ c ∈ dots, ¬ (c = '\n' ∨ c = '\r') := by
  intro c hc
  rw [List.eq_of_mem_replicate hc]
  decide

/-- The error begins in the last 4096 bytes, right after a carriage return, and the reason does not
have it. -/
theorem redrawn_unexplained :
    reasonOf 1 (linesFrom (byteLength redrawnLog - reasonTailBytes) redrawnLog) =
        "exit 1: out of memory" ∧
      exitReason 1 (some (readTail (encode redrawnLog) reasonTailBytes)) = "exit 1" := by
  have hlength := byteLength_redrawnLog
  constructor
  · have hlines : linesFrom (byteLength redrawnLog - reasonTailBytes) redrawnLog =
        ["out of memory".toList] := by
      rw [hlength, linesFrom, redrawnLog, segmentsAt_append_cons 0 _ _ (.inr rfl),
        segmentsAt_eq_singleton dots_plain, dots, byteLength_replicate]
      decide +kernel
    rw [hlines]
    decide +kernel
  · have hnone : '\n' ∉ redrawnLog := by
      rw [redrawnLog, List.mem_append]
      rintro (hmem | hmem)
      · exact dots_plain _ hmem (.inl rfl)
      · exact absurd hmem (by decide)
    have hfeed := @afterLineFeed_append 0 (5014 - reasonTailBytes) redrawnLog [] hnone
    rw [List.append_nil, afterLineFeed, Nat.zero_add] at hfeed
    rw [exitReason_eq, Option.getD_some, linesOf_readTail, hlength, if_neg (by decide), hfeed,
      linesFrom_byteLength]
    decide +kernel

end Roster
