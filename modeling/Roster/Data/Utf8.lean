import Mathlib.Data.UInt
import Mathlib.Data.Nat.Notation

/-!
# Reading bytes as UTF-8

`fromUtf8Lossy` reads any bytes as a text, with U+FFFD in place of what is no UTF-8.  Of a text that
is cut off in front at any byte it keeps every whole character: what is left of the first one reads
as replacements (`fromUtf8Lossy_drop`).
-/

namespace Roster

namespace Utf8

/-- The bytes of a text. -/
def encode (text : List Char) : List UInt8 := text.flatMap String.utf8EncodeChar

/-- The length of a text in bytes. -/
def byteLength (text : List Char) : ℕ := (encode text).length

/-- U+FFFD. -/
def replacement : Char := Char.ofNat 0xFFFD

/-- A second byte that can follow the first one of a sequence of three or four. -/
def secondFits (b₀ b₁ : UInt8) : Bool :=
  if b₀ = 0xE0 then 0xA0 ≤ b₁ && b₁ ≤ 0xBF
  else if b₀ = 0xED then 0x80 ≤ b₁ && b₁ ≤ 0x9F
  else if 0xE1 ≤ b₀ ∧ b₀ ≤ 0xEF then 0x80 ≤ b₁ && b₁ ≤ 0xBF
  else if b₀ = 0xF0 then 0x90 ≤ b₁ && b₁ ≤ 0xBF
  else if 0xF1 ≤ b₀ ∧ b₀ ≤ 0xF3 then 0x80 ≤ b₁ && b₁ ≤ 0xBF
  else if b₀ = 0xF4 then 0x80 ≤ b₁ && b₁ ≤ 0x8F
  else false

/-- How many bytes of a sequence that breaks off are replaced together. -/
def brokenLength : List UInt8 → ℕ
  | b₀ :: b₁ :: rest =>
    if !secondFits b₀ b₁ then 1
    else if 0xF0 ≤ b₀ ∧ rest.head?.any (fun b₂ => 0x80 ≤ b₂ && b₂ ≤ 0xBF) then 3
    else 2
  | _ => 1

/-- `String::from_utf8_lossy`. -/
def fromUtf8Lossy : List UInt8 → List Char
  | [] => []
  | b :: bs => match (b :: bs).toByteArray.utf8DecodeChar? 0 with
    | some c => c :: fromUtf8Lossy (bs.drop (c.utf8Size - 1))
    | none => replacement :: fromUtf8Lossy (bs.drop (brokenLength (b :: bs) - 1))
termination_by bytes => bytes.length
decreasing_by all_goals simp only [List.length_drop, List.length_cons]; omega

/-- `String::from_utf8`: the text, if replacing what is none changes nothing. -/
def fromUtf8 (bytes : List UInt8) : Option (List Char) :=
  if encode (fromUtf8Lossy bytes) = bytes then some (fromUtf8Lossy bytes) else none

variable {text : List Char} {c : Char} {b : UInt8} {rest : List UInt8}

@[simp] theorem encode_nil : encode [] = [] := rfl

@[simp] theorem encode_cons (c : Char) (text : List Char) :
    encode (c :: text) = String.utf8EncodeChar c ++ encode text := rfl

@[simp] theorem encode_append (text more : List Char) :
    encode (text ++ more) = encode text ++ encode more := List.flatMap_append

@[simp] theorem byteLength_nil : byteLength [] = 0 := rfl

@[simp] theorem byteLength_cons (c : Char) (text : List Char) :
    byteLength (c :: text) = c.utf8Size + byteLength text := by
  simp [byteLength]

@[simp] theorem byteLength_append (text more : List Char) :
    byteLength (text ++ more) = byteLength text + byteLength more := by
  simp [byteLength]

theorem length_encode (text : List Char) : (encode text).length = byteLength text := rfl

/-- A character of one byte is that byte. -/
theorem ofUInt8_toUInt8 (hsize : c.utf8Size = 1) : Char.ofUInt8 c.val.toUInt8 = c := by
  rw [Char.utf8Size_eq_one_iff, UInt32.le_iff_toNat_le] at hsize
  refine Char.toNat_inj.1 ?_
  have hnat : (Char.ofUInt8 c.val.toUInt8).toNat = c.val.toUInt8.toUInt32.toNat := rfl
  have hlt : c.toNat < 128 := Nat.lt_succ_of_le hsize
  rw [hnat, UInt8.toNat_toUInt32, UInt32.toNat_toUInt8, Char.toNat_val, Nat.mod_eq_of_lt]
  omega

/-- A byte below 0x80 is no part of a longer character. -/
theorem eq_of_mem_encodeChar (hb : b < 0x80) (h : b ∈ String.utf8EncodeChar c) :
    c = Char.ofUInt8 b := by
  have hmarked : ∀ mark ∈ [(0x80 : UInt8), 0xC0, 0xE0, 0xF0], ∀ n : Fin 256,
      ¬ UInt8.ofFin n ||| mark < 0x80 := by decide +kernel
  have hnot : ∀ mark ∈ [(0x80 : UInt8), 0xC0, 0xE0, 0xF0], ∀ x, b ≠ x ||| mark :=
    fun mark hmark x heq => hmarked mark hmark x.toFin (heq ▸ hb)
  rcases c.utf8Size_eq with hsize | hsize | hsize | hsize
  · rw [String.utf8EncodeChar_eq_singleton hsize, List.mem_singleton] at h
    rw [h, ofUInt8_toUInt8 hsize]
  · rw [String.utf8EncodeChar_eq_cons_cons hsize] at h
    simp [hnot] at h
  · rw [String.utf8EncodeChar_eq_cons_cons_cons hsize] at h
    simp [hnot] at h
  · rw [String.utf8EncodeChar_eq_cons_cons_cons_cons hsize] at h
    simp [hnot] at h

theorem lineFeed_mem_encode : 0x0A ∈ encode text ↔ '\n' ∈ text := by
  rw [encode, List.mem_flatMap]
  constructor
  · rintro ⟨c, hc, hb⟩
    rwa [eq_of_mem_encodeChar (by decide) hb] at hc
  · exact fun hc => ⟨'\n', hc, by decide⟩

/-- A whole character is read as it is. -/
theorem fromUtf8Lossy_encodeChar (c : Char) (rest : List UInt8) :
    fromUtf8Lossy (String.utf8EncodeChar c ++ rest) = c :: fromUtf8Lossy rest := by
  have hdecode : (String.utf8EncodeChar c ++ rest).toByteArray.utf8DecodeChar? 0 = some c := by
    rw [List.toByteArray_append]
    exact ByteArray.utf8DecodeChar?_utf8EncodeChar_append
  have hlength := String.length_utf8EncodeChar c
  cases hbytes : String.utf8EncodeChar c with
  | nil => exact absurd hbytes String.utf8EncodeChar_ne_nil
  | cons b bs =>
    rw [hbytes] at hdecode hlength
    rw [List.cons_append] at hdecode ⊢
    rw [fromUtf8Lossy, hdecode]
    simp [← hlength]

theorem fromUtf8Lossy_append (text : List Char) (rest : List UInt8) :
    fromUtf8Lossy (encode text ++ rest) = text ++ fromUtf8Lossy rest := by
  induction text with
  | nil => rfl
  | cons c text ih =>
    rw [encode_cons, List.append_assoc, fromUtf8Lossy_encodeChar, ih, List.cons_append]

/-- A text is read back. -/
theorem fromUtf8Lossy_encode (text : List Char) : fromUtf8Lossy (encode text) = text := by
  have h := fromUtf8Lossy_append text []
  rwa [List.append_nil, fromUtf8Lossy, List.append_nil] at h

/-- Bytes are a text exactly if they are the bytes of that text. -/
theorem fromUtf8_eq_some {bytes : List UInt8} : fromUtf8 bytes = some text ↔ encode text = bytes := by
  simp only [fromUtf8, Option.ite_none_right_eq_some, Option.some.injEq]
  constructor
  · rintro ⟨h, rfl⟩
    exact h
  · rintro rfl
    rw [fromUtf8Lossy_encode]
    exact ⟨rfl, rfl⟩

/-- The first bytes of a text that are a text are its first characters. -/
theorem prefix_of_encode {first : List Char} (h : encode first ++ rest = encode text) :
    first <+: text := by
  have hread := congrArg fromUtf8Lossy h
  rw [fromUtf8Lossy_append, fromUtf8Lossy_encode] at hread
  exact ⟨_, hread⟩

/-- Only a byte that starts a sequence has a second one. -/
theorem isUTF8FirstByte_of_secondFits {b₁ : UInt8} (h : secondFits b b₁ = true) :
    b.IsUTF8FirstByte := by
  have hrange : 0xE0 ≤ b.toNat ∧ b.toNat ≤ 0xF4 := by
    unfold secondFits at h
    simp only [UInt8.le_iff_toNat_le, ← UInt8.toNat_inj] at h
    grind
  have hall : ∀ n : Fin 256, 0xE0 ≤ n.val → n.val ≤ 0xF4 → (UInt8.ofFin n).IsUTF8FirstByte := by
    decide +kernel
  exact hall b.toFin hrange.1 hrange.2

/-- A byte that starts no sequence is replaced. -/
theorem fromUtf8Lossy_continuation (hb : ¬ b.IsUTF8FirstByte) (rest : List UInt8) :
    fromUtf8Lossy (b :: rest) = replacement :: fromUtf8Lossy rest := by
  have hnone : (b :: rest).toByteArray.utf8DecodeChar? 0 = none := by
    by_contra hsome
    have hfirst := ByteArray.isUTF8FirstByte_of_isSome_utf8DecodeChar?
      (Option.isSome_iff_ne_none.2 hsome)
    exact hb (by simpa using hfirst)
  have hlength : brokenLength (b :: rest) = 1 := by
    cases rest with
    | nil => rfl
    | cons b₁ rest =>
      have hfits : secondFits b b₁ = false :=
        Bool.eq_false_iff.2 fun h => hb (isUTF8FirstByte_of_secondFits h)
      simp [brokenLength, hfits]
  rw [fromUtf8Lossy, hnone, hlength]
  rfl

/-- The rest of a character whose first byte is missing reads as replacements. -/
theorem fromUtf8Lossy_drop_encodeChar (c : Char) (rest : List UInt8) {n : ℕ} (hpos : 0 < n) :
    fromUtf8Lossy ((String.utf8EncodeChar c).drop n ++ rest) =
      List.replicate (c.utf8Size - n) replacement ++ fromUtf8Lossy rest := by
  have hlength := String.length_utf8EncodeChar c
  induction hk : c.utf8Size - n generalizing n with
  | zero =>
    rw [List.drop_eq_nil_of_le (by omega)]
    rfl
  | succ k ih =>
    have hlt : n < (String.utf8EncodeChar c).length := by omega
    have hfirst : ¬ ((String.utf8EncodeChar c)[n]).IsUTF8FirstByte := by
      rw [UInt8.isUTF8FirstByte_getElem_utf8EncodeChar]
      omega
    rw [List.drop_eq_getElem_cons hlt, List.cons_append, fromUtf8Lossy_continuation hfirst,
      ih (by omega) (by omega)]
    rfl

/-- **A text that is cut off in front** at any byte keeps its whole characters. -/
theorem fromUtf8Lossy_drop (text : List Char) {n : ℕ} (hn : n ≤ byteLength text) :
    ∃ (front cut back : List Char) (k : ℕ), text = front ++ cut ++ back ∧
      byteLength front ≤ n ∧ n ≤ byteLength (front ++ cut) ∧ (∀ c ∈ cut, 1 < c.utf8Size) ∧
      fromUtf8Lossy ((encode text).drop n) = List.replicate k replacement ++ back := by
  induction text generalizing n with
  | nil =>
    refine ⟨[], [], [], 0, rfl, Nat.zero_le n, hn, by simp, ?_⟩
    simp [fromUtf8Lossy]
  | cons c text ih =>
    rw [byteLength_cons] at hn
    have hlength := String.length_utf8EncodeChar c
    rcases Nat.eq_zero_or_pos n with rfl | hpos
    · refine ⟨[], [], c :: text, 0, rfl, le_rfl, le_rfl, by simp, ?_⟩
      rw [List.drop_zero, fromUtf8Lossy_encode]
      rfl
    · by_cases hinside : n < c.utf8Size
      · refine ⟨[], [c], text, c.utf8Size - n, rfl, Nat.zero_le n, ?_, ?_, ?_⟩
        · simpa using hinside.le
        · rw [List.forall_mem_singleton]
          omega
        · rw [encode_cons, List.drop_append_of_le_length (by omega),
            fromUtf8Lossy_drop_encodeChar c _ hpos, fromUtf8Lossy_encode]
      · have hrest : n - c.utf8Size ≤ byteLength text := by omega
        obtain ⟨front, cut, back, k, rfl, hfront, hend, hcut, hread⟩ := ih hrest
        refine ⟨c :: front, cut, back, k, rfl, ?_, ?_, hcut, ?_⟩
        · rw [byteLength_cons]
          omega
        · rw [List.cons_append, byteLength_cons]
          omega
        · rw [encode_cons, List.drop_append, List.drop_eq_nil_of_le (by omega), List.nil_append,
            hlength, hread]

end Utf8

end Roster
