import Mathlib.Data.List.Induction
import MailPortal.Documents.Varints
import MailPortal.Lib.Snappy

/-!
# The Snappy Decoder

`decodeSnappyBlock` reads the declared length and then element after element. A block is decoded
just if its length is written in eight bytes at most; what is decoded is a block.

Main results:

* `decodeSnappyBlock_block` : a block gives what its elements define, if its length is readable.
* `decodeSnappyBlock_eq_ok` : nothing but blocks is accepted.
-/

namespace MailPortal.Documents

open Bytes Failure Loop Snappy

variable {xs output : List UInt8} {b : UInt8}
variable {length start passes : ℕ}

/-- The offset in the block, and the part of `output` that is written. -/
structure SnappyState where
  inputOffset : ℕ
  output : List UInt8

/-- The length of a literal, and the offset after it. -/
def literalLength (bytes : List UInt8) (tag inputOffset : ℕ) : Reader (ℕ × ℕ) :=
  if tag >>> 2 < 60 then return (tag >>> 2 + 1, inputOffset)
  else do
    let lengthBytes := tag >>> 2 - 59
    failIf (lengthBytes < 1 ∨ lengthBytes > 4 ∨ inputOffset + lengthBytes > bytes.length)
      .invalid_container
    let length ← (List.range lengthBytes).foldlM (fun length index => do
      let byte ← byteAt bytes (inputOffset + index)
      return length + byte * 2 ^ (8 * index)) 1
    return (length, inputOffset + lengthBytes)

/-- The literal with the tag. -/
def readLiteral (bytes : List UInt8) (size tag : ℕ) (s : SnappyState) : Reader SnappyState := do
  let (length, inputOffset) ← literalLength bytes tag s.inputOffset
  failIf (inputOffset + length > bytes.length ∨ s.output.length + length > size) .invalid_container
  return ⟨inputOffset + length, s.output ++ slice bytes inputOffset (inputOffset + length)⟩

/-- The length and the offset of a copy, and the offset after them. -/
def copyHeader (bytes : List UInt8) (tag inputOffset : ℕ) : Reader (ℕ × ℕ × ℕ) :=
  if tag &&& 0x03 = 1 then do
    failIf (inputOffset ≥ bytes.length) .invalid_container
    let byte ← byteAt bytes inputOffset
    return (4 + (tag >>> 2 &&& 0x07), (tag &&& 0xe0) <<< 3 ||| byte, inputOffset + 1)
  else if tag &&& 0x03 = 2 then do
    failIf (inputOffset + 2 > bytes.length) .invalid_container
    let low ← byteAt bytes inputOffset
    let high ← byteAt bytes (inputOffset + 1)
    return (1 + tag >>> 2, low ||| high <<< 8, inputOffset + 2)
  else do
    failIf (inputOffset + 4 > bytes.length) .invalid_container
    let copyOffset ← getUint32 (slice bytes inputOffset (inputOffset + 4)) 0
    return (1 + tag >>> 2, copyOffset, inputOffset + 4)

/-- The `for` loop that copies byte by byte. -/
def copyBytes (copyOffset : ℕ) : ℕ → List UInt8 → Reader (List UInt8)
  | 0, output => .ok output
  | length + 1, output => do
    let byte ← orThrow output[output.length - copyOffset]? .outside
    copyBytes copyOffset length (output ++ [byte])

/-- The copy with the tag. -/
def readCopy (bytes : List UInt8) (size tag : ℕ) (s : SnappyState) : Reader SnappyState := do
  let (length, copyOffset, inputOffset) ← copyHeader bytes tag s.inputOffset
  failIf (copyOffset ≤ 0 ∨ copyOffset > s.output.length ∨ s.output.length + length > size)
    .invalid_container
  let output ← copyBytes copyOffset length s.output
  return ⟨inputOffset, output⟩

/-- A pass of the `while` loop of `decodeSnappyBlock`. -/
def readElement (bytes : List UInt8) (size : ℕ) (s : SnappyState) : Reader SnappyState := do
  let tag ← byteAt bytes s.inputOffset
  if tag &&& 0x03 = 0 then readLiteral bytes size tag ⟨s.inputOffset + 1, s.output⟩
  else readCopy bytes size tag ⟨s.inputOffset + 1, s.output⟩

def decodeSnappyBlock (bytes : List UInt8) : Reader (List UInt8) := do
  let declared ← readVarint bytes 0
  failIf (declared.1 > ZIP_MAX_UNCOMPRESSED_BYTES) .decompression_exceeded
  let s ← scan SnappyState.inputOffset bytes (readElement bytes declared.1) (bytes.length + 1)
    ⟨declared.2, []⟩
  failIf (s.output.length ≠ declared.1) .invalid_container
  return s.output

/-! ### The bits of a tag -/

section Bits

variable (tag byte : ℕ)

theorem type_bits : tag &&& 0x03 = tag % 4 := Nat.and_two_pow_sub_one_eq_mod tag 2

theorem length_bits : tag >>> 2 = tag / 4 := Nat.shiftRight_eq_div_pow tag 2

theorem short_length_bits : tag >>> 2 &&& 0x07 = tag / 4 % 8 := by
  rw [length_bits]
  exact Nat.and_two_pow_sub_one_eq_mod _ 3

variable {tag byte}

theorem low_or_high {high : ℕ} (h : byte < 256) : byte ||| high <<< 8 = byte + 256 * high := by
  rw [Nat.or_comm, ← Nat.shiftLeft_add_eq_or_of_lt (i := 8) h, Nat.shiftLeft_eq]
  omega

set_option maxRecDepth 4000 in
theorem copy_offset_bits (htag : tag < 256) (h : byte < 256) :
    (tag &&& 0xe0) <<< 3 ||| byte = byte + 256 * (tag / 32) := by
  have hall : ∀ n < 256, (n &&& 0xe0) <<< 3 = (n / 32) <<< 8 := by decide
  rw [hall tag htag, Nat.or_comm, low_or_high h]

end Bits

/-! ### Literals -/

variable {bytes rest : List UInt8} {size tag inputOffset : ℕ}

/-- The loop over the bytes of a length. -/
theorem foldlM_length (h : At bytes inputOffset (xs ++ rest)) :
    (List.range xs.length).foldlM (fun length index => do
      let byte ← byteAt bytes (inputOffset + index)
      return length + byte * 2 ^ (8 * index)) length =
        (.ok (length + littleEndian xs) : Reader ℕ) := by
  induction xs using List.reverseRecOn generalizing rest with
  | nil => rfl
  | append_singleton xs b ih =>
    rw [List.append_assoc] at h
    have hbyte : byteAt bytes (inputOffset + xs.length) = .ok b.toNat := byteAt_head h.skip
    rw [List.length_append, List.length_singleton, List.range_succ, List.foldlM_append, ih h,
      ok_bind, List.foldlM_cons, hbyte, ok_bind, littleEndian_concat, ← Nat.add_assoc, pow_mul]
    rfl

theorem literalLength_short (h : tag / 4 < 60) :
    literalLength bytes tag inputOffset = .ok (tag / 4 + 1, inputOffset) := by
  rw [literalLength, length_bits, if_pos h]
  rfl

/-- A length of its own bytes is read if they are there. -/
theorem literalLength_long {k : ℕ} (hk : k < 4) (htag : tag / 4 = 60 + k) :
    literalLength bytes tag inputOffset =
      if inputOffset + (k + 1) ≤ bytes.length then
        .ok (1 + littleEndian (slice bytes inputOffset (inputOffset + (k + 1))),
          inputOffset + (k + 1))
      else failure .invalid_container := by
  rw [literalLength, length_bits, if_neg (by omega), htag, show 60 + k - 59 = k + 1 by omega]
  by_cases hfits : inputOffset + (k + 1) ≤ bytes.length
  · obtain ⟨rest, hat⟩ := exists_at (Nat.le_of_add_right_le hfits)
    obtain ⟨xs, rest, rfl, hxs⟩ := hat.exists_front hfits
    have hslice := hat.slice
    rw [hxs] at hslice
    rw [if_pos hfits, hslice, failIf_bind (by omega), ← hxs, foldlM_length hat]
    rfl
  · rw [if_neg hfits, failIf_bind_of (Or.inr (Or.inr (by omega)))]

variable {s s' : SnappyState}

/-- The tag and the length of a literal are in front of it. -/
theorem readLiteral_of_length
    (hlength : literalLength bytes tag s.inputOffset = .ok (xs.length, start))
    (h : At bytes start (xs ++ rest)) (hfits : s.output.length + xs.length ≤ size) :
    readLiteral bytes size tag s = .ok ⟨start + xs.length, s.output ++ xs⟩ := by
  have hat := h.length
  rw [List.length_append] at hat
  rw [readLiteral, hlength, ok_bind]
  dsimp only
  rw [failIf_bind (by omega), h.slice]
  rfl

/-- What is read with the length of a literal is the literal. -/
theorem readLiteral_eq_ok (hread : readLiteral bytes size tag s = .ok s') :
    ∃ length start, literalLength bytes tag s.inputOffset = .ok (length, start) ∧
      start + length ≤ bytes.length ∧ s.output.length + length ≤ size ∧
      s' = ⟨start + length, s.output ++ slice bytes start (start + length)⟩ := by
  rw [readLiteral, bind_eq_ok] at hread
  obtain ⟨⟨length, start⟩, hlength, hread⟩ := hread
  dsimp only at hread
  rw [bind_eq_ok] at hread
  obtain ⟨_, htest, hread⟩ := hread
  rw [failIf_eq_ok] at htest
  exact ⟨length, start, hlength, by omega, by omega, (Except.ok.inj hread).symm⟩

/-! ### Copies -/

/-- Copying byte by byte repeats the last bytes of the output. -/
theorem copyBytes_eq {copyOffset : ℕ} (hpos : 1 ≤ copyOffset) (hle : copyOffset ≤ output.length) :
    copyBytes copyOffset length output =
      .ok (output ++ (List.range length).map fun i =>
        output.getD (output.length - copyOffset + i % copyOffset) 0) := by
  induction length generalizing output with
  | zero => rw [List.range_zero, List.map_nil, List.append_nil, copyBytes]
  | succ length ih =>
    have hlt : output.length - copyOffset < output.length := by omega
    rw [copyBytes, List.getElem?_eq_getElem hlt]
    simp only [orThrow, ok_bind]
    rw [ih (by rw [List.length_append]; omega), List.range_succ_eq_map, List.map_cons,
      List.map_map, List.append_assoc]
    have hfirst : output.getD (output.length - copyOffset + 0 % copyOffset) 0 =
        output[output.length - copyOffset] := by
      rw [Nat.zero_mod, Nat.add_zero, List.getD_eq_getElem _ _ hlt]
    rw [hfirst, List.singleton_append]
    congr 3
    refine List.map_congr_left fun i _ => ?_
    have hmod := Nat.mod_lt i hpos
    rw [Function.comp_apply, Nat.succ_eq_add_one, List.length_append, List.length_singleton,
      ← Nat.mod_add_mod]
    by_cases hwrap : i % copyOffset + 1 = copyOffset
    · -- The next byte repeats the one just written.
      rw [hwrap, Nat.mod_self, ← hfirst, Nat.zero_mod,
        show output.length + 1 - copyOffset + i % copyOffset = output.length by omega,
        List.getD_append_right _ _ _ _ (le_refl _), Nat.sub_self]
      rfl
    · rw [Nat.mod_eq_of_lt (show i % copyOffset + 1 < copyOffset by omega),
        List.getD_append _ _ _ _ (by omega)]
      congr 1
      omega

/-- The tag and the offset of a copy are in front of what follows. -/
theorem readCopy_of_header (kind : CopyKind) {offset : ℕ}
    (hheader : copyHeader bytes tag s.inputOffset = .ok (length, offset, start)) (hpos : 1 ≤ offset)
    (hle : offset ≤ s.output.length) (hfits : s.output.length + length ≤ size) :
    readCopy bytes size tag s =
      .ok ⟨start, (Element.copy kind length offset).extend s.output⟩ := by
  rw [readCopy, hheader, ok_bind]
  dsimp only
  rw [failIf_bind (by omega), copyBytes_eq hpos hle]
  rfl

/-- What is read with the header of a copy is the copy. -/
theorem readCopy_eq_ok (kind : CopyKind) (hread : readCopy bytes size tag s = .ok s') :
    ∃ length offset start, copyHeader bytes tag s.inputOffset = .ok (length, offset, start) ∧
      1 ≤ offset ∧ offset ≤ s.output.length ∧ s.output.length + length ≤ size ∧
      s' = ⟨start, (Element.copy kind length offset).extend s.output⟩ := by
  rw [readCopy, bind_eq_ok] at hread
  obtain ⟨⟨length, offset, start⟩, hheader, hread⟩ := hread
  dsimp only at hread
  rw [bind_eq_ok] at hread
  obtain ⟨_, htest, hread⟩ := hread
  rw [failIf_eq_ok] at htest
  rw [copyBytes_eq (by omega) (by omega), ok_bind] at hread
  exact ⟨length, offset, start, hheader, by omega, by omega, by omega, (Except.ok.inj hread).symm⟩

/-! ### Elements -/

/-- The header of a copy of one kind is read if it is there. -/
theorem copyHeader_one (htag : tag < 256) (htype : tag % 4 = 1)
    (h : At bytes inputOffset (b :: rest)) : copyHeader bytes tag inputOffset =
      .ok (4 + tag / 4 % 8, b.toNat + 256 * (tag / 32), inputOffset + 1) := by
  have hlength := h.length
  rw [List.length_cons] at hlength
  rw [copyHeader, type_bits, if_pos htype, failIf_bind (by omega), byteAt_head h, ok_bind,
    short_length_bits, copy_offset_bits htag b.toNat_lt]
  rfl

theorem copyHeader_two (tag : ℕ) (htype : tag % 4 = 2) (hxs : xs.length = 2)
    (h : At bytes inputOffset (xs ++ rest)) : copyHeader bytes tag inputOffset =
      .ok (1 + tag / 4, littleEndian xs, inputOffset + 2) := by
  have hlength := h.length
  rw [List.length_append] at hlength
  match xs, hxs with
  | [low, high], _ =>
    rw [copyHeader, type_bits, if_neg (by omega), if_pos htype, failIf_bind (by omega),
      byteAt_head h, ok_bind, byteAt_head h.skip_one, ok_bind, length_bits,
        low_or_high low.toNat_lt]
    rfl

theorem copyHeader_four (tag : ℕ) (htype : tag % 4 = 3) (hxs : xs.length = 4)
    (h : At bytes inputOffset (xs ++ rest)) : copyHeader bytes tag inputOffset =
      .ok (1 + tag / 4, littleEndian xs, inputOffset + 4) := by
  have hlength := h.length
  have hslice := h.slice
  rw [hxs] at hslice
  rw [List.length_append] at hlength
  have hat : At xs 0 (xs ++ []) := by
    rw [List.append_nil]
    exact at_zero xs
  have hread : getUint32 xs 0 = .ok (littleEndian xs) := getUint32_front hat hxs
  rw [copyHeader, type_bits, if_neg (by omega), if_neg (by omega), failIf_bind (by omega), hslice,
    hread, ok_bind, length_bits]
  rfl

/-- The tag decides what is read. -/
theorem readElement_cons (h : At bytes s.inputOffset (b :: rest)) :
    readElement bytes size s =
      if b.toNat % 4 = 0 then readLiteral bytes size b.toNat ⟨s.inputOffset + 1, s.output⟩
      else readCopy bytes size b.toNat ⟨s.inputOffset + 1, s.output⟩ := by
  rw [readElement, byteAt_head h, ok_bind, type_bits]

/-- **A legal element is read** if the output has room for it. -/
theorem readElement_legal {e : Element} (h : At bytes s.inputOffset (e.bytes ++ rest))
    (hlegal : e.Legal s.output.length) (hfits : s.output.length + e.size ≤ size) :
    readElement bytes size s =
      .ok ⟨s.inputOffset + e.bytes.length, e.extend s.output⟩ := by
  match e with
  | .literal 0 bs =>
    obtain ⟨hpos, hle⟩ := hlegal
    have htag : (UInt8.ofNat (4 * (bs.length - 1))).toNat = 4 * (bs.length - 1) := by
      rw [toNat_ofNat]
      omega
    have hlength : literalLength bytes (4 * (bs.length - 1)) (s.inputOffset + 1) =
        .ok (bs.length, s.inputOffset + 1) := by
      rw [literalLength_short (by omega)]
      congr 2
      omega
    rw [readElement_cons h, htag, if_pos (by omega),
      readLiteral_of_length (s := ⟨s.inputOffset + 1, s.output⟩) hlength h.skip_one hfits,
      Nat.add_assoc, Nat.add_comm 1]
    rfl
  | .literal (k + 1) bs =>
    obtain ⟨hk, hpos, hle⟩ := hlegal
    have htag : (UInt8.ofNat (4 * (60 + k))).toNat = 4 * (60 + k) := by
      rw [toNat_ofNat]
      omega
    have hspell : (spell (k + 1) (bs.length - 1)).length = k + 1 := length_spell _ _
    have hat : At bytes (s.inputOffset + 1) (spell (k + 1) (bs.length - 1) ++ (bs ++ rest)) := by
      rw [← List.append_assoc]
      exact h.skip_one
    have hslice := hat.slice
    rw [hspell] at hslice
    have hlength : literalLength bytes (4 * (60 + k)) (s.inputOffset + 1) =
        .ok (bs.length, s.inputOffset + 1 + (k + 1)) := by
      have hroom := hat.length
      rw [List.length_append, hspell] at hroom
      rw [literalLength_long hk (by omega), if_pos (by omega), hslice,
        littleEndian_spell (by omega)]
      congr 2
      omega
    have hbody := hat.skip
    rw [hspell] at hbody
    rw [readElement_cons h, htag, if_pos (by omega),
      readLiteral_of_length (s := ⟨s.inputOffset + 1, s.output⟩) hlength hbody hfits]
    congr 2
    rw [Element.bytes, List.length_cons, List.length_append, hspell]
    omega
  | .copy .one length offset =>
    obtain ⟨⟨hmin, hmax, hroom⟩, hpos, hle⟩ := hlegal
    have htag : (UInt8.ofNat (1 + 4 * (length - 4) + 32 * (offset / 256))).toNat =
        1 + 4 * (length - 4) + 32 * (offset / 256) := by
      rw [toNat_ofNat]
      omega
    have hheader := copyHeader_one (UInt8.toNat_lt _) (by rw [htag]; omega) h.skip_one
    rw [htag, toNat_ofNat, show (4 + (1 + 4 * (length - 4) + 32 * (offset / 256)) / 4 % 8,
      offset % 256 + 256 * ((1 + 4 * (length - 4) + 32 * (offset / 256)) / 32),
      s.inputOffset + 1 + 1) = (length, offset, s.inputOffset + 1 + 1) by
        congr 2 <;> omega] at hheader
    rw [readElement_cons h, htag, if_neg (by omega),
      readCopy_of_header (s := ⟨s.inputOffset + 1, s.output⟩) .one hheader hpos hle hfits]
    rfl
  | .copy .two length offset =>
    obtain ⟨⟨hmin, hmax, hroom⟩, hpos, hle⟩ := hlegal
    have htag : (UInt8.ofNat (2 + 4 * (length - 1))).toNat = 2 + 4 * (length - 1) := by
      rw [toNat_ofNat]
      omega
    have hheader := copyHeader_two (2 + 4 * (length - 1)) (by omega) (length_spell 2 offset)
      h.skip_one
    rw [littleEndian_spell (by omega), show 1 + (2 + 4 * (length - 1)) / 4 = length by omega]
      at hheader
    rw [readElement_cons h, htag, if_neg (by omega),
      readCopy_of_header (s := ⟨s.inputOffset + 1, s.output⟩) .two hheader hpos hle hfits]
    rfl
  | .copy .four length offset =>
    obtain ⟨⟨hmin, hmax, hroom⟩, hpos, hle⟩ := hlegal
    have htag : (UInt8.ofNat (3 + 4 * (length - 1))).toNat = 3 + 4 * (length - 1) := by
      rw [toNat_ofNat]
      omega
    have hheader := copyHeader_four (3 + 4 * (length - 1)) (by omega) (length_spell 4 offset)
      h.skip_one
    rw [littleEndian_spell (by omega), show 1 + (3 + 4 * (length - 1)) / 4 = length by omega]
      at hheader
    rw [readElement_cons h, htag, if_neg (by omega),
      readCopy_of_header (s := ⟨s.inputOffset + 1, s.output⟩) .four hheader hpos hle
        hfits]
    rfl

theorem ofNat_eq {n : ℕ} (h : n = b.toNat) : UInt8.ofNat n = b := by
  rw [h, UInt8.ofNat_toNat]

/-- A literal that is read is legal. -/
theorem readLiteral_legal (h : At bytes inputOffset (b :: rest)) (htype : b.toNat % 4 = 0)
    (hread : readLiteral bytes size b.toNat ⟨inputOffset + 1, output⟩ = .ok s') :
    ∃ (e : Element) (rest' : List UInt8), b :: rest = e.bytes ++ rest' ∧ e.Legal output.length ∧
      output.length + e.size ≤ size ∧
      s' = ⟨inputOffset + e.bytes.length, e.extend output⟩ := by
  obtain ⟨length, start, hlength, hroom, hfits, rfl⟩ := readLiteral_eq_ok hread
  have hb := b.toNat_lt
  by_cases hshort : b.toNat / 4 < 60
  · rw [literalLength_short hshort] at hlength
    cases hlength
    obtain ⟨xs, rest', rfl, hxs⟩ := h.skip_one.exists_front hroom
    have hslice := h.skip_one.slice
    rw [← hxs] at hfits ⊢
    rw [hslice]
    refine ⟨.literal 0 xs, rest', ?_, ⟨by omega, by omega⟩, hfits, ?_⟩
    · rw [Element.bytes, ofNat_eq (show 4 * (xs.length - 1) = b.toNat by omega), List.cons_append]
    · rw [Element.bytes, List.length_cons, Nat.add_assoc, Nat.add_comm 1]
      rfl
  · obtain ⟨k, htag⟩ : ∃ k, b.toNat / 4 = 60 + k := ⟨b.toNat / 4 - 60, by omega⟩
    have hk : k < 4 := by omega
    rw [literalLength_long hk htag] at hlength
    split at hlength
    · rename_i hfront
      obtain ⟨ls, rest₁, rfl, hls⟩ := h.skip_one.exists_front hfront
      have hslice := h.skip_one.slice
      rw [hls] at hslice
      cases hlength
      rw [hslice] at hroom hfits ⊢
      have hbody := h.skip_one.skip
      rw [hls] at hbody
      obtain ⟨xs, rest', rfl, hxs⟩ := hbody.exists_front hroom
      have hbound := littleEndian_lt ls
      have hspell : spell (k + 1) (xs.length - 1) = ls := by
        rw [hxs, Nat.add_sub_cancel_left, ← hls, spell_littleEndian]
      rw [hls] at hbound
      rw [← hxs] at hfits ⊢
      rw [hbody.slice]
      refine ⟨.literal (k + 1) xs, rest', ?_, ⟨hk, by omega, by omega⟩, hfits, ?_⟩
      · rw [Element.bytes, hspell, ofNat_eq (show 4 * (60 + k) = b.toNat by omega),
          List.cons_append, List.append_assoc]
      · rw [Element.bytes, List.length_cons, List.length_append, length_spell]
        congr 1
        dsimp only
        omega
    · exact absurd hlength nofun

/-- A copy that is read is legal. -/
theorem readCopy_legal (h : At bytes inputOffset (b :: rest)) (htype : b.toNat % 4 ≠ 0)
    (hread : readCopy bytes size b.toNat ⟨inputOffset + 1, output⟩ = .ok s') :
    ∃ (e : Element) (rest' : List UInt8), b :: rest = e.bytes ++ rest' ∧ e.Legal output.length ∧
      output.length + e.size ≤ size ∧
      s' = ⟨inputOffset + e.bytes.length, e.extend output⟩ := by
  have hb := b.toNat_lt
  obtain htype | htype | htype : b.toNat % 4 = 1 ∨ b.toNat % 4 = 2 ∨ b.toNat % 4 = 3 := by omega
  · obtain ⟨length, offset, start, hheader, hpos, hle, hfits, rfl⟩ :=
      readCopy_eq_ok .one hread
    obtain ⟨low, rest', rfl⟩ : ∃ low rest', rest = low :: rest' := by
      rw [copyHeader, type_bits, if_pos htype, bind_eq_ok] at hheader
      obtain ⟨_, hroom, -⟩ := hheader
      rw [failIf_eq_ok] at hroom
      exact h.skip_one.exists_head (Nat.not_le.mp hroom)
    have hlow := low.toNat_lt
    rw [copyHeader_one hb htype h.skip_one] at hheader
    obtain ⟨rfl, hrest⟩ := Prod.mk.inj (Except.ok.inj hheader)
    cases hrest
    refine ⟨.copy .one _ _, rest', ?_, ⟨⟨by omega, by omega, by omega⟩, hpos, hle⟩, hfits, ?_⟩
    · have htag : UInt8.ofNat (1 + 4 * (4 + b.toNat / 4 % 8 - 4) +
          32 * ((low.toNat + 256 * (b.toNat / 32)) / 256)) = b := ofNat_eq (by omega)
      have hoffset : UInt8.ofNat (low.toNat + 256 * (b.toNat / 32)) = low := by
        rw [← UInt8.toNat_inj, toNat_ofNat]
        omega
      rw [Element.bytes, CopyKind.bytes, htag, hoffset]
      rfl
    · rfl
  · obtain ⟨length, offset, start, hheader, hpos, hle, hfits, rfl⟩ :=
      readCopy_eq_ok .two hread
    obtain ⟨xs, rest', rfl, hxs⟩ : ∃ xs rest', rest = xs ++ rest' ∧ xs.length = 2 := by
      rw [copyHeader, type_bits, if_neg (by omega), if_pos htype, bind_eq_ok] at hheader
      obtain ⟨_, hroom, -⟩ := hheader
      rw [failIf_eq_ok] at hroom
      exact h.skip_one.exists_front (Nat.not_lt.mp hroom)
    have hbound := littleEndian_lt xs
    rw [hxs] at hbound
    rw [copyHeader_two _ htype hxs h.skip_one] at hheader
    obtain ⟨rfl, hrest⟩ := Prod.mk.inj (Except.ok.inj hheader)
    cases hrest
    refine ⟨.copy .two _ _, rest', ?_, ⟨⟨by omega, by omega, by omega⟩, hpos, hle⟩, hfits, ?_⟩
    · rw [Element.bytes, CopyKind.bytes, ofNat_eq (show 2 + 4 * (1 + b.toNat / 4 - 1) = b.toNat
        by omega), ← hxs, spell_littleEndian]
      rfl
    · rfl
  · obtain ⟨length, offset, start, hheader, hpos, hle, hfits, rfl⟩ :=
      readCopy_eq_ok .four hread
    obtain ⟨xs, rest', rfl, hxs⟩ : ∃ xs rest', rest = xs ++ rest' ∧ xs.length = 4 := by
      rw [copyHeader, type_bits, if_neg (by omega), if_neg (by omega), bind_eq_ok] at hheader
      obtain ⟨_, hroom, -⟩ := hheader
      rw [failIf_eq_ok] at hroom
      exact h.skip_one.exists_front (Nat.not_lt.mp hroom)
    have hbound := littleEndian_lt xs
    rw [hxs] at hbound
    rw [copyHeader_four _ htype hxs h.skip_one] at hheader
    obtain ⟨rfl, hrest⟩ := Prod.mk.inj (Except.ok.inj hheader)
    cases hrest
    refine ⟨.copy .four _ _, rest', ?_, ⟨⟨by omega, by omega, by omega⟩, hpos, hle⟩, hfits, ?_⟩
    · rw [Element.bytes, CopyKind.bytes, ofNat_eq (show 3 + 4 * (1 + b.toNat / 4 - 1) = b.toNat
        by omega), ← hxs, spell_littleEndian]
      rfl
    · rfl

/-- **What is read is a legal element** for which the output has room. -/
theorem readElement_eq_ok (h : At bytes s.inputOffset rest)
    (hread : readElement bytes size s = .ok s') : ∃ (e : Element) (rest' : List UInt8),
      rest = e.bytes ++ rest' ∧ e.Legal s.output.length ∧ s.output.length + e.size ≤ size ∧
      s' = ⟨s.inputOffset + e.bytes.length, e.extend s.output⟩ := by
  obtain ⟨tag, htag, -⟩ := bind_eq_ok.mp hread
  obtain ⟨b, rest, rfl, -⟩ := byteAt_eq_ok h htag
  rw [readElement_cons h] at hread
  split at hread
  · exact readLiteral_legal h ‹_› hread
  · exact readCopy_legal h ‹_› hread

/-! ### Blocks -/

/-- The loop reads legal elements for which there is room. -/
theorem readElements_legal {es : List Element} (h : At bytes inputOffset (es.flatMap Element.bytes))
    (hlegal : Legal output es) (hfits : (extend output es).length ≤ size)
    (hpasses : es.length ≤ passes) :
    scan SnappyState.inputOffset bytes (readElement bytes size) passes ⟨inputOffset, output⟩ =
      .ok ⟨bytes.length, extend output es⟩ := by
  induction es generalizing passes inputOffset output with
  | nil =>
    have hend : inputOffset = bytes.length := h.length
    subst hend
    exact scan_done _ (le_refl _)
  | cons e es ih =>
    obtain ⟨hlegalHead, hlegalRest⟩ := hlegal
    rw [List.flatMap_cons] at h
    have hroom : output.length + e.size ≤ size := by
      rw [← Element.length_extend]
      exact (length_le_extend (e.extend output) es).trans hfits
    have hread := readElement_legal (s := ⟨inputOffset, output⟩) h hlegalHead hroom
    have hrun : inputOffset < bytes.length := by
      have hlength := h.length
      have hpos := e.bytes_length_pos
      rw [List.length_append] at hlength
      omega
    obtain ⟨passes, rfl⟩ := Nat.exists_eq_add_of_le' (Nat.one_le_of_lt (Nat.lt_of_lt_of_le
      (Nat.succ_pos _) hpasses))
    rw [scan_step SnappyState.inputOffset hrun hread]
    exact ih h.skip hlegalRest hfits (Nat.le_of_succ_le_succ hpasses)

/-- The loop reads nothing but legal elements. -/
theorem readElements_eq_ok (h : At bytes s.inputOffset rest)
    (hread : scan SnappyState.inputOffset bytes (readElement bytes size) passes s = .ok s') :
    ∃ es : List Element, rest = es.flatMap Element.bytes ∧ Legal s.output es ∧
      s'.output = extend s.output es := by
  induction passes generalizing s rest with
  | zero =>
    obtain ⟨hend, rfl⟩ | ⟨_, _, hpasses, -⟩ := scan_eq_ok _ hread
    · exact ⟨[], h.nil_iff.mpr hend, trivial, rfl⟩
    · exact absurd hpasses nofun
  | succ passes ih =>
    obtain ⟨hend, rfl⟩ | ⟨_, s₁, hpasses, -, hfirst, hrest⟩ := scan_eq_ok _ hread
    · exact ⟨[], h.nil_iff.mpr hend, trivial, rfl⟩
    · cases hpasses
      obtain ⟨e, rest', rfl, hlegal, -, rfl⟩ := readElement_eq_ok h hfirst
      obtain ⟨es, rfl, hlegalRest, hout⟩ := ih h.skip hrest
      exact ⟨e :: es, rfl, ⟨hlegal, hlegalRest⟩, hout⟩

/-- **A block is decoded** just if its length is readable. -/
theorem decodeSnappyBlock_block (block : Block)
    (hsize : block.output.length ≤ ZIP_MAX_UNCOMPRESSED_BYTES) :
    decodeSnappyBlock block.bytes = .ok block.output ↔ Readable block.total := by
  have hat : At block.bytes 0 (block.total.bytes ++ block.elements.flatMap Element.bytes) :=
    at_zero _
  rw [decodeSnappyBlock, readVarint_eq block.total hat]
  by_cases hreadable : Readable block.total
  · rw [if_pos hreadable, ok_bind]
    dsimp only
    have hdeclared : block.total.value = block.output.length := block.total_eq
    have hpasses : block.elements.length ≤ block.bytes.length + 1 := by
      have hlength := length_le_bytes block.elements
      rw [Block.bytes, List.length_append]
      omega
    have hroom : (extend [] block.elements).length ≤ block.output.length := le_refl _
    have hloop := readElements_legal (by simpa using hat.skip) block.legal hroom hpasses
    rw [hdeclared, failIf_bind (Nat.not_lt.mpr hsize)]
    rw [Nat.zero_add, hloop, ok_bind]
    have hfull : ¬((⟨block.bytes.length, extend [] block.elements⟩ : SnappyState).output.length ≠
        block.output.length) := not_not_intro rfl
    rw [failIf_bind hfull]
    exact iff_of_true rfl hreadable
  · rw [if_neg hreadable]
    exact iff_of_false (fun h => by cases h) hreadable

/-- **Nothing but blocks is accepted.** -/
theorem decodeSnappyBlock_eq_ok (h : decodeSnappyBlock bytes = .ok output) :
    ∃ block : Block, block.bytes = bytes ∧ block.output = output ∧ Readable block.total ∧
      output.length ≤ ZIP_MAX_UNCOMPRESSED_BYTES := by
  rw [decodeSnappyBlock, bind_eq_ok] at h
  obtain ⟨declared, hdeclared, h⟩ := h
  rw [bind_eq_ok] at h
  obtain ⟨_, hlimit, h⟩ := h
  rw [bind_eq_ok] at h
  obtain ⟨s, hloop, h⟩ := h
  rw [bind_eq_ok] at h
  obtain ⟨_, hfull, h⟩ := h
  rw [failIf_eq_ok] at hlimit hfull
  obtain ⟨total, rest, hbytes, hreadable, rfl⟩ := readVarint_eq_ok (at_zero bytes) hdeclared
  have hat : At bytes 0 (total.bytes ++ rest) := hbytes ▸ at_zero bytes
  obtain ⟨es, rfl, hlegal, hout⟩ := readElements_eq_ok hat.skip hloop
  cases h
  have htotal : total.value = (extend [] es).length := by
    rw [← hout]
    exact (not_not.mp hfull).symm
  refine ⟨⟨total, es, by have := hreadable.1; omega, hlegal, htotal⟩, hbytes.symm, hout.symm,
    hreadable, ?_⟩
  rw [not_not.mp hfull]
  exact Nat.not_lt.mp hlimit

/-- A copy of four bytes reaches into what it produces. -/
example : decodeSnappyBlock [7, 8, 97, 98, 99, 1, 3] = .ok [97, 98, 99, 97, 98, 99, 97] := by
  decide

/-! ### Refusals -/

theorem contained_literalLength (htag : tag < 256) :
    Contained (literalLength bytes tag inputOffset) := by
  by_cases hshort : tag / 4 < 60
  · rw [literalLength_short hshort]
    exact contained_ok _
  · obtain ⟨k, hk⟩ : ∃ k, tag / 4 = 60 + k := ⟨tag / 4 - 60, by omega⟩
    rw [literalLength_long (by omega) hk]
    exact contained_ite (fun _ => contained_ok _) fun _ => contained_failure

theorem contained_copyHeader : Contained (copyHeader bytes tag inputOffset) := by
  refine contained_ite (fun _ => ?_) fun _ => contained_ite (fun _ => ?_) fun _ => ?_
  all_goals
    refine contained_bind contained_failIf fun _ hroom => ?_
    rw [failIf_eq_ok] at hroom
  · refine contained_bind (contained_byteAt (by omega)) fun _ _ => contained_ok _
  · refine contained_bind (contained_byteAt (by omega)) fun _ _ => ?_
    exact contained_bind (contained_byteAt (by omega)) fun _ _ => contained_ok _
  · refine contained_bind (contained_getUint32 ?_) fun _ _ => contained_ok _
    rw [slice, List.length_drop, List.length_take]
    omega

theorem contained_readElement (hlt : s.inputOffset < bytes.length) :
    Contained (readElement bytes size s) := by
  obtain ⟨rest, hat⟩ := exists_at hlt.le
  obtain ⟨b, rest, rfl⟩ := hat.exists_head hlt
  rw [readElement_cons hat]
  refine contained_ite (fun _ => ?_) fun _ => ?_
  · refine contained_bind (contained_literalLength b.toNat_lt) fun _ _ => ?_
    exact contained_bind contained_failIf fun _ _ => contained_ok _
  · refine contained_bind contained_copyHeader fun header _ => ?_
    refine contained_bind contained_failIf fun _ hroom => ?_
    rw [failIf_eq_ok] at hroom
    rw [copyBytes_eq (by omega) (by omega)]
    exact contained_ok _

/-- Every element moves the offset on. -/
theorem lt_of_readElement (hlt : s.inputOffset < bytes.length)
    (hread : readElement bytes size s = .ok s') : s.inputOffset < s'.inputOffset := by
  obtain ⟨rest, hat⟩ := exists_at hlt.le
  obtain ⟨e, rest', -, -, -, rfl⟩ := readElement_eq_ok hat hread
  exact Nat.lt_add_of_pos_right (e.bytes_length_pos)

theorem contained_decodeSnappyBlock : Contained (decodeSnappyBlock bytes) := by
  refine contained_bind contained_readVarint fun declared _ => ?_
  refine contained_bind contained_failIf fun _ _ => ?_
  refine contained_bind ?_ fun _ _ => contained_bind contained_failIf fun _ _ => contained_ok _
  exact contained_scan SnappyState.inputOffset (fun _ => True) trivial (by omega)
    (fun _ _ _ hlt hread => ⟨trivial, lt_of_readElement hlt hread⟩)
    fun _ _ hlt => contained_readElement hlt

end MailPortal.Documents
