import Montage.Base64
import Montage.Proofs.TextDecode
import Montage.Proofs.TextTrimming
import Montage.Request.Basic

/-! Images in requests. An image is encoded in a URL; that URLs are decoded to the bytes that were encoded
is said of an encoding of its own, by groups of three bytes. -/

namespace Montage.Proofs.EncodedImages
open Montage.Base64

def alphabet : List Char :=
  "ABCDEFGHIJKLMNOPQRSTUVWXYZabcdefghijklmnopqrstuvwxyz0123456789+/".toList

def symbol (bits : Nat) : Char :=
  alphabet.getD bits '='

/-- The bits of one to three bytes, six at a time. Bits that are missing in the end are zero. -/
def sixes : List UInt8 → List Nat
  | [a] => [a.toNat / 4, a.toNat % 4 * 16]
  | [a, b] => [a.toNat / 4, a.toNat % 4 * 16 + b.toNat / 16, b.toNat % 16 * 4]
  | [a, b, c] =>
    [a.toNat / 4, a.toNat % 4 * 16 + b.toNat / 16, b.toNat % 16 * 4 + c.toNat / 64, c.toNat % 64]
  | _ => []

/-- Three bytes at a time are written as four symbols. The last group is filled up with equality signs. -/
def encode : List UInt8 → List Char
  | [] => []
  | a :: b :: c :: next :: rest => (sixes [a, b, c]).map symbol ++ encode (next :: rest)
  | last => (sixes last).map symbol ++ List.replicate (3 - last.length) '='

def byteOf (c : Char) : UInt8 :=
  .ofNat c.toNat

section Symbols

private theorem value_symbol {bits : Nat} (six : bits < 64) : value? (byteOf (symbol bits)) = some bits := by
  have all : ∀ bits < 64, value? (byteOf (symbol bits)) = some bits := by decide +kernel
  exact all bits six

private theorem symbol_value {byte : UInt8} {bits : Nat} (known : value? byte = some bits) :
    bits < 64 ∧ byte = byteOf (symbol bits) := by
  have all : ∀ number < 256, ∀ bits ∈ value? (.ofNat number), bits < 64 ∧ UInt8.ofNat number = byteOf (symbol bits) := by
    decide +kernel
  have given := all byte.toNat byte.toNat_lt bits
  rw [UInt8.ofNat_toNat] at given
  exact given known

private theorem pad_eq : pad = byteOf '=' :=
  rfl

private theorem symbol_ne_pad {bits : Nat} (six : bits < 64) : byteOf (symbol bits) ≠ pad := by
  intro same
  have value := value_symbol six
  rw [same] at value
  cases value

private theorem map_ok_iff {f : α → β} {result : Except ε α} {value : β} :
    result.map f = .ok value ↔ ∃ given, result = .ok given ∧ f given = value := by
  cases result <;> simp [Except.map]

theorem values_ok_iff {offset : Nat} {symbols : List UInt8} {bits : List Nat} :
    values offset symbols = .ok bits ↔ symbols = bits.map (byteOf ∘ symbol) ∧ ∀ six ∈ bits, six < 64 := by
  induction symbols generalizing offset bits with
  | nil => cases bits <;> simp [values]
  | cons byte rest ih =>
    constructor
    · intro known
      unfold values at known
      cases value : value? byte with
      | none =>
        rw [value] at known
        cases known
      | some six =>
        rw [value] at known
        obtain ⟨later, found, rfl⟩ := map_ok_iff.mp known
        obtain ⟨rfl, below⟩ := ih.mp found
        obtain ⟨bound, rfl⟩ := symbol_value value
        exact ⟨rfl, List.forall_mem_cons.mpr ⟨bound, below⟩⟩
    · rintro ⟨same, below⟩
      cases bits with
      | nil => cases same
      | cons six later =>
        obtain ⟨rfl, rfl⟩ := List.cons.inj same
        obtain ⟨bound, below⟩ := List.forall_mem_cons.mp below
        unfold values
        rw [Function.comp_apply, value_symbol bound, ih.mpr ⟨rfl, below⟩]
        rfl

end Symbols

section Groups

private theorem sixes_bytesOf {bits : List Nat} (below : ∀ six ∈ bits, six < 64) (some_byte : 2 ≤ bits.length)
    (group : bits.length ≤ 4) (whole : (bytesOf bits).2 = 0) :
    sixes (bytesOf bits).1 = bits ∧ (bytesOf bits).1.length + 1 = bits.length := by
  match bits with
  | [i, j] | [i, j, k] | [i, j, k, l] =>
    simp only [List.forall_mem_cons, bytesOf] at below whole
    simp only [bytesOf, sixes, UInt8.toNat_ofNat', List.cons.injEq, List.length_cons, List.length_nil, and_true]
    omega
  | [] | [_] => simp at some_byte
  | _ :: _ :: _ :: _ :: _ :: _ =>
    simp only [List.length_cons] at group
    omega

theorem bytesOf_sixes {bytes : List UInt8} (some_byte : bytes ≠ []) (group : bytes.length ≤ 3) :
    bytesOf (sixes bytes) = (bytes, 0) ∧ (∀ six ∈ sixes bytes, six < 64) ∧
      (sixes bytes).length = bytes.length + 1 := by
  have small : ∀ byte ∈ bytes, byte.toNat < 256 := fun byte _ => byte.toNat_lt
  match bytes with
  | [a] | [a, b] | [a, b, c] =>
    simp only [List.forall_mem_cons] at small
    simp only [sixes, bytesOf, Prod.mk.injEq, List.cons.injEq, ← UInt8.toNat_inj, UInt8.toNat_ofNat',
      List.forall_mem_cons, List.not_mem_nil, false_implies, implies_true, List.length_cons, List.length_nil, and_true]
    omega
  | [] => exact absurd rfl some_byte
  | _ :: _ :: _ :: _ :: _ =>
    simp only [List.length_cons] at group
    omega

end Groups

section Decoding
variable {offset : Nat} {bytes : List UInt8}

/-- The bytes that are written as one group of symbols, which is the last one if it is not full. -/
private theorem values_group {bits : List Nat} {group : List UInt8} (known : values offset group = .ok bits)
    (some_byte : 2 ≤ group.length) (short : group.length ≤ 4) (whole : (bytesOf bits).2 = 0) :
    group = ((sixes (bytesOf bits).1).map symbol).map byteOf ∧ (bytesOf bits).1.length + 1 = group.length := by
  obtain ⟨rfl, below⟩ := values_ok_iff.mp known
  rw [List.length_map] at some_byte short ⊢
  obtain ⟨same, length⟩ := sixes_bytesOf below some_byte short whole
  exact ⟨by rw [same, List.map_map], length⟩

private theorem values_sixes (some_byte : bytes ≠ []) (group : bytes.length ≤ 3) :
    values offset (((sixes bytes).map symbol).map byteOf) = .ok (sixes bytes) :=
  values_ok_iff.mpr ⟨List.map_map .., (bytesOf_sixes some_byte group).2.1⟩

theorem encode_group (some_byte : bytes ≠ []) (group : bytes.length ≤ 3) :
    encode bytes = (sixes bytes).map symbol ++ List.replicate (3 - bytes.length) '=' := by
  match bytes with
  | [a] | [a, b] | [a, b, c] => rfl
  | [] => exact absurd rfl some_byte
  | _ :: _ :: _ :: _ :: _ =>
    simp only [List.length_cons] at group
    omega

private theorem symbols_padded {symbols : List UInt8} (inked : ∀ byte ∈ symbols, byte ≠ pad) (count : Nat) :
    (symbols ++ List.replicate count pad).takeWhile (· ≠ pad) = symbols := by
  rw [List.takeWhile_append_of_pos (by simpa using inked)]
  cases count <;> simp [List.replicate_succ]

private theorem decodeLast_ok {group : List UInt8} (decoded : decodeLast offset group = .ok bytes) :
    bytes ≠ [] ∧ bytes.length ≤ 3 ∧ group = (encode bytes).map byteOf := by
  have split := List.prefix_iff_eq_append.mp (List.takeWhile_prefix (· ≠ pad) (l := group))
  unfold decodeLast at decoded
  dsimp only at decoded
  generalize group.takeWhile (· ≠ pad) = symbols at decoded split
  generalize group.drop symbols.length = padding at decoded split
  subst split
  cases known : values offset symbols with
  | error fault =>
    rw [known] at decoded
    cases decoded
  | ok bits =>
    simp only [known] at decoded
    split_ifs at decoded with unfit few odd left
    cases decoded
    simp only [ne_eq, not_not] at odd left
    have count : symbols.length + padding.length = 4 := by rw [← List.length_append, odd]
    obtain ⟨same, length⟩ := values_group known (by omega) (by omega) left
    have some_byte : (bytesOf bits).1 ≠ [] := List.ne_nil_of_length_pos (by omega)
    have padded : padding = List.replicate (3 - (bytesOf bits).1.length) pad := by
      refine List.eq_replicate_iff.mpr ⟨by omega, ?_⟩
      intro byte member
      by_contra other
      apply unfit
      simp only [Bool.and_eq_true, Bool.or_eq_true, List.any_eq_true]
      exact ⟨by cases padding <;> simp_all, .inr ⟨byte, member, by simpa using other⟩⟩
    refine ⟨some_byte, by omega, ?_⟩
    rw [encode_group some_byte (by omega), List.map_append, List.map_replicate, ← pad_eq, ← padded, ← same]

private theorem decodeLast_encode (some_byte : bytes ≠ []) (short : bytes.length ≤ 3) :
    decodeLast offset ((encode bytes).map byteOf) = .ok bytes := by
  obtain ⟨whole, below, length⟩ := bytesOf_sixes some_byte short
  have filled := List.length_pos_iff.mpr some_byte
  have known := @values_sixes offset bytes some_byte short
  have inked : ∀ byte ∈ ((sixes bytes).map symbol).map byteOf, byte ≠ pad := by
    simp only [List.mem_map]
    rintro _ ⟨_, ⟨six, member, rfl⟩, rfl⟩
    exact symbol_ne_pad (below six member)
  have count : (((sixes bytes).map symbol).map byteOf).length = bytes.length + 1 := by
    simp only [List.length_map, length]
  rw [encode_group some_byte short, List.map_append, List.map_replicate, ← pad_eq]
  generalize ((sixes bytes).map symbol).map byteOf = symbols at known inked count
  have few : ¬symbols.length < 2 := by omega
  have four : (symbols ++ List.replicate (3 - bytes.length) pad).length = 4 := by
    rw [List.length_append, List.length_replicate]
    omega
  unfold decodeLast
  dsimp only
  rw [symbols_padded inked, List.drop_left, known]
  simp [four, few, whole]

private theorem length_le_three {last : List UInt8}
    (short : ∀ a b c next rest, last = a :: b :: c :: next :: rest → False) : last.length ≤ 3 := by
  match last with
  | [] | [_] | [_, _] | [_, _, _] => simp
  | _ :: _ :: _ :: _ :: _ => exact (short _ _ _ _ _ rfl).elim

theorem encode_length (bytes : List UInt8) : (encode bytes).length = (bytes.length + 2) / 3 * 4 := by
  fun_induction encode bytes with
  | case1 => rfl
  | case2 a b c next rest ih =>
    simp only [sixes, List.length_append, List.length_map, List.length_cons, List.length_nil, ih]
    omega
  | case3 last some_byte short =>
    have short := length_le_three short
    have filled := List.length_pos_iff.mpr some_byte
    rw [List.length_append, List.length_map, List.length_replicate, (bytesOf_sixes some_byte short).2.2]
    omega

private theorem encode_ne_nil (some_byte : bytes ≠ []) : encode bytes ≠ [] := by
  have filled := List.length_pos_iff.mpr some_byte
  apply List.ne_nil_of_length_pos
  rw [encode_length]
  omega

private theorem decodeGroups_ok {text : List UInt8} (decoded : decodeGroups offset text = .ok bytes) :
    text = (encode bytes).map byteOf := by
  fun_induction decodeGroups offset text generalizing bytes with
  | case1 =>
    cases decoded
    rfl
  | case2 => cases decoded
  | case3 offset s t u v next rest bits known ih =>
    obtain ⟨later, found, rfl⟩ := map_ok_iff.mp decoded
    have rest_same := ih found
    have whole : (bytesOf bits).2 = 0 := by
      obtain ⟨same, -⟩ := values_ok_iff.mp known
      match bits with
      | [_, _, _, _] => rfl
    obtain ⟨same, length⟩ := values_group known (by simp) (by simp) whole
    generalize (bytesOf bits).1 = first at same length
    match first, later with
    | [_, _, _], _ :: _ =>
      rw [rest_same]
      simp only [List.cons_append, List.nil_append, encode, List.map_append, ← same]
    | [_, _, _], [] => cases rest_same
  | case4 offset last => exact (decodeLast_ok decoded).2.2

private theorem decodeGroups_encode (offset : Nat) (bytes : List UInt8) :
    decodeGroups offset ((encode bytes).map byteOf) = .ok bytes := by
  fun_induction encode bytes generalizing offset with
  | case1 => rfl
  | case2 a b c next rest ih =>
    have known := @values_sixes offset [a, b, c] (by simp) (by simp)
    have whole := (@bytesOf_sixes [a, b, c] (by simp) (by simp)).1
    have later := ih (offset + 4)
    obtain ⟨symbol, symbols, same⟩ := List.exists_cons_of_ne_nil (encode_ne_nil (List.cons_ne_nil next rest))
    rw [same] at later ⊢
    simp only [sixes, List.map_cons, List.map_nil, List.cons_append, List.nil_append] at known whole later ⊢
    simp only [decodeGroups, known, whole, later]
    rfl
  | case3 last some_byte short =>
    have short := length_le_three short
    have decoded := @decodeLast_encode offset last some_byte short
    have length : ((encode last).map byteOf).length ≤ 4 := by
      rw [List.length_map, encode_length]
      omega
    have filled : (encode last).map byteOf ≠ [] := by simpa using encode_ne_nil some_byte
    rw [← encode_group some_byte short]
    generalize (encode last).map byteOf = group at decoded length filled ⊢
    match group with
    | [_] | [_, _] | [_, _, _] | [_, _, _, _] => exact decoded
    | [] => exact absurd rfl filled
    | _ :: _ :: _ :: _ :: _ :: _ =>
      simp only [List.length_cons] at length
      omega

theorem decode_ok_iff {text : List UInt8} : decode text = .ok bytes ↔ text = (encode bytes).map byteOf := by
  have groups : decodeGroups 0 text = .ok bytes ↔ text = (encode bytes).map byteOf := by
    constructor
    · exact decodeGroups_ok
    · rintro rfl
      exact decodeGroups_encode 0 bytes
  -- What is looked at first is a last symbol too many, and no encoding has one.
  unfold decode
  split
  next remainder _ =>
    split
    · refine iff_of_false (fun found => by cases found) ?_
      rintro rfl
      rw [List.length_map, encode_length] at remainder
      omega
    · exact groups
  · exact groups

end Decoding

section Urls

private theorem encode_chars (bytes : List UInt8) : ∀ c ∈ encode bytes, c ∈ '=' :: alphabet := by
  have symbols (bits : List Nat) : ∀ c ∈ bits.map symbol, c ∈ '=' :: alphabet := by
    intro c member
    obtain ⟨six, -, rfl⟩ := List.mem_map.mp member
    rw [symbol, List.getD_eq_getElem?_getD]
    cases known : alphabet[six]? with
    | none => exact List.mem_cons_self
    | some c => exact List.mem_cons_of_mem _ (List.mem_of_getElem? known)
  fun_induction encode bytes with
  | case1 => simp
  | case2 a b c next rest ih => exact List.forall_mem_append.mpr ⟨symbols _, ih⟩
  | case3 last some_byte short =>
    refine List.forall_mem_append.mpr ⟨symbols _, ?_⟩
    intro c member
    rw [List.eq_of_mem_replicate member]
    exact List.mem_cons_self

private theorem encode_plain (bytes : List UInt8) :
    ∀ c ∈ encode bytes, Text.isBlank c = false ∧ String.utf8EncodeChar c = [byteOf c] := by
  have plain : ('=' :: alphabet).all (fun c => !Text.isBlank c && String.utf8EncodeChar c == [byteOf c]) = true := by
    decide +kernel
  intro c member
  simpa using List.all_eq_true.mp plain c (encode_chars bytes c member)

/-- Only the characters of an encoding are coded in its bytes. -/
theorem text_encode_iff {text : List Char} {bytes : List UInt8} :
    (String.ofList text).toUTF8.toList = (encode bytes).map byteOf ↔ text = encode bytes := by
  have ascii : (encode bytes).map byteOf = (encode bytes).flatMap String.utf8EncodeChar := by
    rw [List.map_eq_flatMap, List.flatMap_def, List.flatMap_def]
    exact congrArg List.flatten (List.map_congr_left fun c member => (encode_plain bytes c member).2.symm)
  rw [TextDecode.toUTF8_toList, String.toList_ofList, ascii]
  constructor
  · intro same
    have coded : (String.ofList text).toByteArray = (String.ofList (encode bytes)).toByteArray := by
      rw [String.toByteArray_ofList, String.toByteArray_ofList, List.utf8Encode, List.utf8Encode, same]
    exact String.ofList_inj.mp (String.toByteArray_inj.mp coded)
  · rintro rfl
    rfl

/-- A URL carries an image: after the prefix of such URLs stands its encoding, perhaps between blanks. -/
def Carries (url : String) (image : ByteArray) : Prop :=
  ∃ before after, (∀ c ∈ before ++ after, Text.isBlank c = true) ∧
    url.toList = "data:image/png;base64,".toList ++ (before ++ encode image.data.toList ++ after)

/-- What a request has to lay over the video: an image, or nothing if no URL begins like those of images. -/
def Pictures (request : Request) : Option ByteArray → Prop
  | some image => ∃ url, request.frame = some url ∧ Carries url image
  | none => ∀ url, request.frame = some url → ¬"data:image/png;base64,".toList <+: url.toList

theorem carries_iff {url : String} {image : ByteArray} : Carries url image ↔
    ∃ payload, url.toList = "data:image/png;base64,".toList ++ payload ∧
      Text.trim payload = encode image.data.toList := by
  constructor
  · rintro ⟨before, after, blank, same⟩
    obtain ⟨first, last⟩ := List.forall_mem_append.mp blank
    refine ⟨_, same, (TextTrimming.trimmed_iff.mp ⟨⟨before, after, rfl, first, last⟩, ?_, ?_⟩).symm⟩
    · exact fun c head => (encode_plain _ c (List.mem_of_mem_head? head)).1
    · exact fun c last => (encode_plain _ c (List.mem_of_mem_getLast? last)).1
  · rintro ⟨payload, same, trimmed⟩
    obtain ⟨before, after, first, last, split⟩ := TextTrimming.trim_split payload
    rw [trimmed] at split
    exact ⟨before, after, List.forall_mem_append.mpr ⟨first, last⟩, by rw [same, ← split]⟩

/-- There is an overlay in just the URLs with the prefix, and it is what follows. -/
theorem overlay_iff {request : Request} {payload : String} : request.overlay = some payload ↔
    ∃ url, request.frame = some url ∧ url.toList = "data:image/png;base64,".toList ++ payload.toList := by
  have known : Request.imagePrefix.toList = "data:image/png;base64,".toList := rfl
  simp only [Request.overlay, Option.bind_eq_some_iff, Option.ite_none_right_eq_some, Option.some.injEq,
    List.isPrefixOf_iff_prefix, ← String.length_toList, ← known]
  generalize Request.imagePrefix.toList = start
  refine exists_congr fun url => and_congr_right fun _ => ?_
  constructor
  · rintro ⟨begins, rfl⟩
    rw [String.toList_ofList]
    exact (List.prefix_iff_eq_append.mp begins).symm
  · intro same
    rw [same, List.drop_left, String.ofList_toList]
    exact ⟨List.prefix_append _ _, rfl⟩

theorem overlay_none_iff {request : Request} : request.overlay = none ↔ Pictures request none := by
  rw [Option.eq_none_iff_forall_ne_some]
  constructor
  · rintro without url there ⟨payload, same⟩
    have follows : url.toList = "data:image/png;base64,".toList ++ (String.ofList payload).toList := by
      rw [String.toList_ofList (l := payload), same]
    exact without _ (overlay_iff.mpr ⟨url, there, follows⟩)
  · intro without payload overlay
    obtain ⟨url, there, same⟩ := overlay_iff.mp overlay
    exact without url there ⟨payload.toList, same.symm⟩

theorem decode_overlay_iff {request : Request} {payload : String} {bytes : List UInt8}
    (overlay : request.overlay = some payload) :
    decode (String.ofList (Text.trim payload.toList)).toUTF8.toList = .ok bytes ↔
      Pictures request (some ⟨bytes.toArray⟩) := by
  obtain ⟨url, there, same⟩ := overlay_iff.mp overlay
  simp only [decode_ok_iff, text_encode_iff, Pictures, carries_iff, there, Option.some.injEq, exists_eq_left', same,
    List.append_cancel_left_eq]

theorem pictures_isSome {request : Request} {image : Option ByteArray} (pictures : Pictures request image) :
    request.overlay.isSome = image.isSome := by
  cases image with
  | none =>
    rw [overlay_none_iff.mpr pictures]
    rfl
  | some image =>
    obtain ⟨url, there, carries⟩ := pictures
    obtain ⟨payload, same, -⟩ := carries_iff.mp carries
    rw [Option.isSome_some, Option.isSome_iff_ne_none, ne_eq, overlay_none_iff]
    exact fun without => without url there ⟨payload, same.symm⟩

end Urls

end Montage.Proofs.EncodedImages
