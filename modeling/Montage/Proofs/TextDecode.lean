import Montage.Text.Utf8

/-! Decoding what was encoded. The bytes of a text are decoded to its characters, whatever they are. -/

namespace Montage.Proofs.TextDecode
open Montage.Text

private theorem byte_le {bound : UInt8} {byte : Nat} (small : byte < 256) :
    bound ≤ UInt8.ofNat byte ↔ bound.toNat ≤ byte := by
  rw [UInt8.le_iff_toNat_le, UInt8.toNat_ofNat_of_lt' small]

private theorem le_byte {bound : UInt8} {byte : Nat} (small : byte < 256) :
    UInt8.ofNat byte ≤ bound ↔ byte ≤ bound.toNat := by
  rw [UInt8.le_iff_toNat_le, UInt8.toNat_ofNat_of_lt' small]

theorem byte_lt {bound : UInt8} {byte : Nat} (small : byte < 256) :
    UInt8.ofNat byte < bound ↔ byte < bound.toNat := by
  rw [UInt8.lt_iff_toNat_lt, UInt8.toNat_ofNat_of_lt' small]

private theorem byte_eq {bound : UInt8} {byte : Nat} (small : byte < 256) :
    UInt8.ofNat byte = bound ↔ byte = bound.toNat := by
  rw [← UInt8.toNat_inj, UInt8.toNat_ofNat_of_lt' small]

/-- A byte that fits into a sequence is taken into its code. -/
theorem decodeStep_inside {code byte : Nat} {low high : UInt8} {after : Nat} {done : List (Option Char)}
    (fits : low.toNat ≤ byte ∧ byte ≤ high.toNat) :
    decodeStep (.inside code low high after, done) (UInt8.ofNat byte) =
      match after with
      | 0 => (.between, some (Char.ofNat (code * 64 + (byte - 0x80))) :: done)
      | after + 1 => (.inside (code * 64 + (byte - 0x80)) 0x80 0xBF after, done) := by
  have small : byte < 256 := Nat.lt_of_le_of_lt fits.2 high.toNat_lt
  have inside : (low ≤ UInt8.ofNat byte && UInt8.ofNat byte ≤ high) = true := by
    simpa [byte_le small, le_byte small] using fits
  have code_bits : (UInt8.ofNat byte).toNat = byte := UInt8.toNat_ofNat_of_lt' small
  cases after <;> simp [decodeStep, inside, code_bits]

/-- A first byte opens a sequence, and says how the next one is bounded and how many follow that. -/
theorem decodeFirst_opens {byte bits : Nat} {low high : UInt8} {after : Nat} (small : byte < 256)
    (second : secondByte (UInt8.ofNat byte) = some (low, high, after)) (leading : leadingBits (UInt8.ofNat byte) = bits)
    (above : 0x80 ≤ byte) (done : List (Option Char)) :
    decodeFirst done (UInt8.ofNat byte) = (.inside bits low high after, done) := by
  have high_bit : ¬UInt8.ofNat byte < 0x80 := by
    rw [byte_lt small]
    exact Nat.not_lt.mpr above
  simp only [decodeFirst, if_neg high_bit, second, leading]

theorem leadingBits_of {byte : Nat} (small : byte < 256) :
    leadingBits (UInt8.ofNat byte) =
      if byte < 0xE0 then byte - 0xC0 else if byte < 0xF0 then byte - 0xE0 else byte - 0xF0 := by
  simp only [leadingBits, byte_lt small, UInt8.toNat_ofNat_of_lt' small]
  rfl

theorem secondByte_of {byte : Nat} (small : byte < 256) :
    secondByte (UInt8.ofNat byte) =
      if 0xC2 ≤ byte ∧ byte ≤ 0xDF then some (0x80, 0xBF, 0)
      else if byte = 0xE0 then some (0xA0, 0xBF, 1)
      else if byte = 0xED then some (0x80, 0x9F, 1)
      else if 0xE1 ≤ byte ∧ byte ≤ 0xEF then some (0x80, 0xBF, 1)
      else if byte = 0xF0 then some (0x90, 0xBF, 2)
      else if 0xF1 ≤ byte ∧ byte ≤ 0xF3 then some (0x80, 0xBF, 2)
      else if byte = 0xF4 then some (0x80, 0x8F, 2)
      else none := by
  simp [secondByte, byte_le small, le_byte small, byte_eq small]

private theorem decodeFirst_two {byte : Nat} (above : 0xC2 ≤ byte) (below : byte ≤ 0xDF) (done : List (Option Char)) :
    decodeFirst done (UInt8.ofNat byte) = (.inside (byte - 0xC0) 0x80 0xBF 0, done) := by
  have small : byte < 256 := by omega
  apply decodeFirst_opens small
  · rw [secondByte_of small, if_pos ⟨above, below⟩]
  · rw [leadingBits_of small, if_pos (by omega)]
  · omega

private theorem decodeFirst_three {byte : Nat} (above : 0xE0 ≤ byte) (below : byte ≤ 0xEF) (done : List (Option Char)) :
    decodeFirst done (UInt8.ofNat byte) =
      (.inside (byte - 0xE0) (if byte = 0xE0 then 0xA0 else 0x80) (if byte = 0xED then 0x9F else 0xBF) 1, done) := by
  have small : byte < 256 := by omega
  apply decodeFirst_opens small
  · rw [secondByte_of small, if_neg (by omega)]
    by_cases first : byte = 0xE0
    · subst first
      rfl
    · by_cases surrogates : byte = 0xED
      · subst surrogates
        rfl
      · simp only [if_neg first, if_neg surrogates]
        rw [if_pos ⟨by omega, below⟩]
  · rw [leadingBits_of small, if_neg (by omega), if_pos (by omega)]
  · omega

private theorem decodeFirst_four {byte : Nat} (above : 0xF0 ≤ byte) (below : byte ≤ 0xF4) (done : List (Option Char)) :
    decodeFirst done (UInt8.ofNat byte) =
      (.inside (byte - 0xF0) (if byte = 0xF0 then 0x90 else 0x80) (if byte = 0xF4 then 0x8F else 0xBF) 2, done) := by
  have small : byte < 256 := by omega
  apply decodeFirst_opens small
  · rw [secondByte_of small, if_neg (by omega), if_neg (by omega), if_neg (by omega), if_neg (by omega)]
    by_cases first : byte = 0xF0
    · subst first
      rfl
    · by_cases last : byte = 0xF4
      · subst last
        rfl
      · simp only [if_neg first, if_neg last]
        rw [if_pos ⟨by omega, by omega⟩]
  · rw [leadingBits_of small, if_neg (by omega), if_neg (by omega)]
  · omega

private theorem decodeStep_between (done : List (Option Char)) (byte : UInt8) :
    decodeStep (.between, done) byte = decodeFirst done byte :=
  rfl

theorem decoded_as {c : Char} {code other : Nat} (whole : Char.ofNat code = c) (done : List (Option Char))
    (same : other = code) : (Decoding.between, some (Char.ofNat other) :: done) = (Decoding.between, some c :: done) := by
  rw [same, whole]

/-- The bytes of a character are decoded to it. -/
private theorem decode_char (c : Char) (done : List (Option Char)) :
    (String.utf8EncodeChar c).foldl decodeStep (.between, done) = (.between, some c :: done) := by
  have valid : c.val.toNat < 0xD800 ∨ 0xDFFF < c.val.toNat ∧ c.val.toNat < 0x110000 := c.valid
  have whole : Char.ofNat c.val.toNat = c := Char.ofNat_toNat c
  have tail : ∀ bits : Nat, (0x80 : UInt8).toNat ≤ bits % 64 + 128 ∧ bits % 64 + 128 ≤ (0xBF : UInt8).toNat := by
    intro bits
    change 128 ≤ _ ∧ _ ≤ 191
    omega
  unfold String.utf8EncodeChar
  generalize c.val.toNat = code at valid whole ⊢
  simp only
  -- One case for each number of bytes. The second of three or four bytes has bounds of its own, which keep out what
  -- fewer bytes can say, surrogates, and codes that are too large.
  split
  next one =>
    have small : code < 256 := by omega
    have plain : UInt8.ofNat code < 0x80 := by
      rw [byte_lt small]
      change code < 128
      omega
    simp only [List.foldl_cons, List.foldl_nil, decodeStep_between, decodeFirst, if_pos plain]
    rw [UInt8.toNat_ofNat_of_lt' small, whole]
  next =>
    split
    next two =>
      have opens := @decodeFirst_two (code / 64 % 32 + 192) (by omega) (by omega) done
      simp only [List.foldl_cons, List.foldl_nil, decodeStep_between]
      rw [opens, decodeStep_inside (tail _)]
      exact decoded_as whole done (by omega)
    next =>
      split
      next three =>
        have opens := @decodeFirst_three (code / 4096 % 16 + 224) (by omega) (by omega) done
        simp only [List.foldl_cons, List.foldl_nil, decodeStep_between]
        rw [opens, decodeStep_inside, decodeStep_inside (tail _)]
        · exact decoded_as whole done (by omega)
        constructor
        · split
          · change 160 ≤ _
            omega
          · exact (tail _).1
        · split
          · change _ ≤ 159
            omega
          · exact (tail _).2
      next four =>
        have opens := @decodeFirst_four (code / 262144 % 8 + 240) (by omega) (by omega) done
        simp only [List.foldl_cons, List.foldl_nil, decodeStep_between]
        rw [opens, decodeStep_inside, decodeStep_inside (tail _), decodeStep_inside (tail _)]
        · exact decoded_as whole done (by omega)
        constructor
        · split
          · change 144 ≤ _
            omega
          · exact (tail _).1
        · split
          · change _ ≤ 143
            omega
          · exact (tail _).2

private theorem toList_toByteArray (bytes : List UInt8) : bytes.toByteArray.toList = bytes := by
  have walked : ∀ left index (done : List UInt8), bytes.length - index = left →
      ByteArray.toList.loop bytes.toByteArray index done = done.reverse ++ bytes.drop index := by
    intro left
    induction left with
    | zero =>
      intro index done rest
      have past : ¬index < bytes.length := by omega
      rw [ByteArray.toList.loop, List.size_toByteArray, if_neg past, List.drop_eq_nil_of_le (by omega), List.append_nil]
    | succ left ih =>
      intro index done rest
      have within : index < bytes.length := by omega
      have byte : bytes.toByteArray.get! index = bytes[index] := by
        simp [ByteArray.get!, within]
      rw [ByteArray.toList.loop, List.size_toByteArray, if_pos within, ih _ _ (by omega), byte,
        List.drop_eq_getElem_cons within]
      simp
  exact walked _ 0 [] rfl

theorem toUTF8_toList (text : String) : text.toUTF8.toList = text.toList.flatMap String.utf8EncodeChar := by
  rw [String.toUTF8, ← String.utf8Encode_toList, List.utf8Encode, toList_toByteArray]

theorem decode_toUTF8 (text : String) : decode text.toUTF8 = decoded text := by
  have chars : ∀ (chars : List Char) (done : List (Option Char)),
      (chars.flatMap String.utf8EncodeChar).foldl decodeStep (.between, done) =
        (.between, (chars.map some).reverse ++ done) := by
    intro chars
    induction chars with
    | nil => exact fun done => rfl
    | cons c rest ih =>
      intro done
      rw [List.flatMap_cons, List.foldl_append, decode_char, ih]
      simp
  rw [decode, toUTF8_toList, chars]
  simp [decoded]

end Montage.Proofs.TextDecode
