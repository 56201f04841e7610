import MailPortal.Documents.SnappyBlocks
import MailPortal.Lib.Protobuf

/-!
# The Decoders of a Numbers Document

An IWA file is a sequence of frames, each with a Snappy block behind a header of four bytes. What
the blocks decode to is a sequence of protobuf messages, whose fields `parseProtobufFields` lists.

All of them read varints with `readVarint`. A varint of protobuf may take ten bytes, and a negative
integer takes all ten: a message that has one is refused.

Main results:

* `numbers_decoders` : each decoder matches its format just where all varints are readable.
* `negative_integer_refused` : a message of one negative integer is refused.
-/

namespace MailPortal.Documents

open Bytes Failure Loop Protobuf Snappy

variable {passes : ℕ} {field : Field}

/-! ### Frames -/

/-- Where `decodeIwa` is, how much it has decoded, and into what. -/
structure IwaState where
  offset : ℕ
  total : ℕ
  outputs : List (List UInt8)

/-- A pass of the `while` loop of `decodeIwa`. -/
def readFrame (bytes : List UInt8) (s : IwaState) : Reader IwaState := do
  failIf (s.offset + 4 > bytes.length) .invalid_container
  let first ← byteAt bytes s.offset
  failIf (first ≠ 0) .invalid_container
  let low ← byteAt bytes (s.offset + 1)
  let middle ← byteAt bytes (s.offset + 2)
  let high ← byteAt bytes (s.offset + 3)
  let compressedLength := low ||| middle <<< 8 ||| high <<< 16
  let offset := s.offset + 4
  failIf (compressedLength ≤ 0 ∨ offset + compressedLength > bytes.length) .invalid_container
  let output ← decodeSnappyBlock (slice bytes offset (offset + compressedLength))
  let total := s.total + output.length
  -- The quotient of the source is above the ratio just if the product is below the total.
  failIf (total > ZIP_MAX_UNCOMPRESSED_BYTES ∨ total > ZIP_MAX_RATIO * (offset + compressedLength))
    .decompression_exceeded
  return ⟨offset + compressedLength, total, s.outputs ++ [output]⟩

def decodeIwa (bytes : List UInt8) : Reader (List UInt8) := do
  let s ← scan IwaState.offset bytes (readFrame bytes) (bytes.length + 1) ⟨0, 0, []⟩
  return s.outputs.flatten

/-- A frame with a block that is decoded. -/
structure Frame where
  block : List UInt8
  output : List UInt8
  decodes : decodeSnappyBlock block = .ok output
  short : block.length < 2 ^ 24

def Frame.bytes (frame : Frame) : List UInt8 :=
  0 :: (spell 3 frame.block.length ++ frame.block)

/-- No frame takes the output over the limits. -/
def WithinLimits : ℕ → ℕ → List Frame → Prop
  | _, _, [] => True
  | offset, total, frame :: frames =>
    (total + frame.output.length ≤ ZIP_MAX_UNCOMPRESSED_BYTES ∧
      total + frame.output.length ≤ ZIP_MAX_RATIO * (offset + frame.bytes.length)) ∧
    WithinLimits (offset + frame.bytes.length) (total + frame.output.length) frames

/-! ### Fields -/

/-- `ProtobufField` -/
structure ProtobufField where
  number : ℕ
  wireType : ℕ
  value : Option ℕ
  bytes : Option (List UInt8)
deriving DecidableEq

def skipProtobufField (bytes : List UInt8) (offset wireType : ℕ) : Reader ℕ :=
  if wireType = 0 then do
    let value ← readVarint bytes offset
    return value.2
  else if wireType = 1 then do
    failIf (offset + 8 > bytes.length) .invalid_container
    return offset + 8
  else if wireType = 2 then do
    let length ← readVarint bytes offset
    failIf (length.2 + length.1 > bytes.length) .invalid_container
    return length.2 + length.1
  else if wireType = 5 then do
    failIf (offset + 4 > bytes.length) .invalid_container
    return offset + 4
  else failure .invalid_container

/-- Where `parseProtobufFields` is, and the fields before. -/
structure FieldsState where
  offset : ℕ
  fields : List ProtobufField

variable {s : FieldsState}

/-- A pass of the `while` loop of `parseProtobufFields`. -/
def readField (bytes : List UInt8) (s : FieldsState) : Reader FieldsState := do
  let key ← readVarint bytes s.offset
  let number := key.1 / 8
  let wireType := key.1 &&& 0x07
  failIf (number ≤ 0 ∨ wireType ∉ [0, 1, 2, 5]) .invalid_container
  if wireType = 0 then do
    let value ← readVarint bytes key.2
    return ⟨value.2, s.fields ++ [⟨number, wireType, some value.1, none⟩]⟩
  else if wireType = 2 then do
    let length ← readVarint bytes key.2
    failIf (length.2 + length.1 > bytes.length) .invalid_container
    return ⟨length.2 + length.1, s.fields ++
      [⟨number, wireType, none, some (slice bytes length.2 (length.2 + length.1))⟩]⟩
  else do
    let offset ← skipProtobufField bytes key.2 wireType
    return ⟨offset, s.fields ++ [⟨number, wireType, none, none⟩]⟩

def parseProtobufFields (bytes : List UInt8) : Reader (List ProtobufField) := do
  let s ← scan FieldsState.offset bytes (readField bytes) (bytes.length + 1) ⟨0, []⟩
  return s.fields

/-- The value that the parser gives to a field. -/
def parsedValue : Payload → Option ℕ
  | .varint value _ => some value.value
  | _ => none

/-- The bytes that the parser gives to a field. -/
def parsedBytes : Payload → Option (List UInt8)
  | .delimited _ _ bytes _ => some bytes
  | _ => none

/-- A field as the parser lists it. -/
def parsedField (field : Field) : ProtobufField :=
  ⟨field.number, field.payload.wireType, parsedValue field.payload, parsedBytes field.payload⟩

/-! ### Frames are decoded one after the other -/

variable {bytes rest : List UInt8}

theorem frame_length_bits (low middle high : UInt8) :
    low.toNat ||| middle.toNat <<< 8 ||| high.toNat <<< 16 = littleEndian [low, middle, high] := by
  have hlow := low.toNat_lt
  have hmiddle := middle.toNat_lt
  rw [low_or_high hlow, Nat.or_comm,
    ← Nat.shiftLeft_add_eq_or_of_lt (i := 16) (by omega), Nat.shiftLeft_eq]
  simp only [littleEndian]
  omega

theorem block_length_pos {block output : List UInt8} (h : decodeSnappyBlock block = .ok output) :
    0 < block.length := by
  obtain ⟨b, rfl, -⟩ := decodeSnappyBlock_eq_ok h
  exact List.length_pos_of_ne_nil b.bytes_ne_nil

theorem Frame.length_bytes (frame : Frame) : frame.bytes.length = 4 + frame.block.length := by
  rw [Frame.bytes, List.length_cons, List.length_append, length_spell]
  omega

/-- **A frame is read** just if it stays within the limits. -/
theorem readFrame_frame {frame : Frame} {s : IwaState}
    (h : At bytes s.offset (frame.bytes ++ rest)) : readFrame bytes s =
      if s.total + frame.output.length ≤ ZIP_MAX_UNCOMPRESSED_BYTES ∧
          s.total + frame.output.length ≤ ZIP_MAX_RATIO * (s.offset + frame.bytes.length) then
        .ok ⟨s.offset + frame.bytes.length, s.total + frame.output.length,
          s.outputs ++ [frame.output]⟩
      else failure .decompression_exceeded := by
  have hlength := h.length
  rw [List.length_append, frame.length_bytes] at hlength
  have hpos := block_length_pos frame.decodes
  obtain ⟨low, middle, high, hspell⟩ : ∃ low middle high : UInt8,
      spell 3 frame.block.length = [low, middle, high] := ⟨_, _, _, rfl⟩
  have hcompressed : littleEndian [low, middle, high] = frame.block.length := by
    rw [← hspell, littleEndian_spell frame.short]
  have hat : At bytes s.offset (0 :: low :: middle :: high :: (frame.block ++ rest)) := by
    have hbytes : frame.bytes = 0 :: low :: middle :: high :: frame.block := by
      rw [Frame.bytes, hspell]
      rfl
    rwa [hbytes] at h
  have hblock := hat.skip_one.skip_one.skip_one.skip_one
  rw [readFrame, failIf_bind (by omega), byteAt_head hat, ok_bind, failIf_bind (by simp),
    byteAt_head hat.skip_one, ok_bind, byteAt_head hat.skip_one.skip_one, ok_bind,
    byteAt_head hat.skip_one.skip_one.skip_one, ok_bind]
  dsimp only
  rw [frame_length_bits, hcompressed, failIf_bind (by omega)]
  have hslice := hblock.slice
  rw [hslice, frame.decodes, ok_bind, frame.length_bytes, ← Nat.add_assoc]
  by_cases hlimits : s.total + frame.output.length ≤ ZIP_MAX_UNCOMPRESSED_BYTES ∧
      s.total + frame.output.length ≤ ZIP_MAX_RATIO * (s.offset + 4 + frame.block.length)
  · rw [if_pos hlimits, failIf_bind (by omega)]
    rfl
  · rw [if_neg hlimits, failIf_bind_of (by omega)]

theorem frame_bytes_length_pos (frame : Frame) : 0 < frame.bytes.length := Nat.succ_pos _

/-- The loop reads frame after frame, as long as they stay within the limits. -/
theorem readFrames_eq {frames : List Frame} {s : IwaState}
    (h : At bytes s.offset (frames.flatMap Frame.bytes)) (hpasses : frames.length ≤ passes) :
    (∃ s', scan IwaState.offset bytes (readFrame bytes) passes s = .ok s' ∧
      s'.outputs = s.outputs ++ frames.map Frame.output ∧ WithinLimits s.offset s.total frames) ∨
    (scan IwaState.offset bytes (readFrame bytes) passes s = failure .decompression_exceeded ∧
      ¬WithinLimits s.offset s.total frames) := by
  induction frames generalizing passes s with
  | nil =>
    refine Or.inl ⟨s, scan_done _ (h.nil_iff.mp rfl), ?_, trivial⟩
    rw [List.map_nil, List.append_nil]
  | cons frame frames ih =>
    rw [List.flatMap_cons] at h
    have hrun : s.offset < bytes.length := by
      have hlength := h.length
      have hpos := frame_bytes_length_pos frame
      rw [List.length_append] at hlength
      omega
    obtain ⟨passes, rfl⟩ := Nat.exists_eq_add_of_le' (Nat.one_le_of_lt (Nat.lt_of_lt_of_le
      (Nat.succ_pos _) hpasses))
    have hread := readFrame_frame h
    by_cases hlimits : s.total + frame.output.length ≤ ZIP_MAX_UNCOMPRESSED_BYTES ∧
        s.total + frame.output.length ≤ ZIP_MAX_RATIO * (s.offset + frame.bytes.length)
    · rw [if_pos hlimits] at hread
      rw [scan_step IwaState.offset hrun hread]
      rcases ih (s := ⟨_, _, _⟩) h.skip (Nat.le_of_succ_le_succ hpasses) with
        ⟨s', hscan, houtputs, hrest⟩ | ⟨hscan, hrest⟩
      · refine Or.inl ⟨s', hscan, ?_, hlimits, hrest⟩
        rw [houtputs, List.map_cons, List.append_assoc]
        rfl
      · exact Or.inr ⟨hscan, fun hall => hrest hall.2⟩
    · rw [if_neg hlimits] at hread
      exact Or.inr ⟨scan_fail IwaState.offset hrun hread, fun hall => hlimits hall.1⟩

/-- **A sequence of frames** decodes to the outputs of its blocks, just if no frame takes it over
the limits. -/
theorem decodeIwa_frames (frames : List Frame) :
    decodeIwa (frames.flatMap Frame.bytes) = .ok (frames.flatMap Frame.output) ↔
      WithinLimits 0 0 frames := by
  have hpasses : frames.length ≤ (frames.flatMap Frame.bytes).length + 1 := by
    have hlength : frames.length ≤ (frames.flatMap Frame.bytes).length := by
      induction frames with
      | nil => exact Nat.zero_le _
      | cons frame frames ih =>
        have hpos := frame_bytes_length_pos frame
        rw [List.flatMap_cons, List.length_append, List.length_cons]
        omega
    omega
  have hat : At (frames.flatMap Frame.bytes) 0 (frames.flatMap Frame.bytes) := at_zero _
  rcases readFrames_eq (s := ⟨0, 0, []⟩) hat hpasses with
    ⟨s', hscan, houtputs, hlimits⟩ | ⟨hscan, hlimits⟩
  · rw [decodeIwa, hscan, ok_bind, houtputs, List.nil_append, ← List.flatMap_def]
    exact iff_of_true rfl hlimits
  · rw [decodeIwa, hscan]
    exact iff_of_false nofun hlimits

/-! ### Fields are listed one after the other -/

theorem wireType_bits (n : ℕ) : n &&& 0x07 = n % 8 := Nat.and_two_pow_sub_one_eq_mod n 3

theorem wireType_mem (payload : Payload) : payload.wireType ∈ [0, 1, 2, 5] := by
  cases payload <;> simp [Payload.wireType]

/-- What follows the key of a field is read just if its varint is readable. -/
theorem readPayload {offset : ℕ} (hkey : Readable field.key)
    (h : At bytes s.offset (field.bytes ++ rest))
    (hoffset : offset = s.offset + field.key.bytes.length) : readField bytes s =
      if ∀ v ∈ field.payload.varints, Readable v then
        .ok ⟨offset + field.payload.bytes.length, s.fields ++ [parsedField field]⟩
      else failure .invalid_container := by
  subst hoffset
  obtain ⟨key, number, payload, hlegal, hpositive, hvalue⟩ := field
  have hmem := wireType_mem payload
  have hlt : payload.wireType < 8 := by
    cases payload <;> simp [Payload.wireType]
  have hnumber : key.value / 8 = number := by
    rw [hvalue]
    omega
  have htype : key.value &&& 0x07 = payload.wireType := by
    rw [wireType_bits, hvalue]
    omega
  dsimp only at hkey ⊢
  rw [Field.bytes, List.append_assoc] at h
  have hrest : At bytes (s.offset + key.bytes.length) (payload.bytes ++ rest) := h.skip
  have hlength := hrest.length
  rw [List.length_append] at hlength
  rw [readField, readVarint_eq key h, if_pos hkey, ok_bind]
  dsimp only
  rw [hnumber, htype, failIf_bind (by simp only [not_or, not_not]; exact ⟨by omega, hmem⟩)]
  cases payload with
  | varint value _ =>
    rw [Payload.varints, Payload.wireType, if_pos rfl, readVarint_eq value hrest]
    by_cases hread : Readable value
    · rw [if_pos hread, if_pos (by simpa using hread)]
      rfl
    · rw [if_neg hread, if_neg (by simpa using hread)]
      rfl
  | fixed64 bs hbs =>
    rw [Payload.bytes, hbs] at hlength
    rw [Payload.varints, Payload.wireType, if_neg (by decide), if_neg (by decide),
      skipProtobufField,
      if_neg (by decide), if_pos rfl, failIf_bind (by omega), if_pos (by simp), Payload.bytes, hbs]
    rfl
  | delimited size _ bs hbs =>
    rw [Payload.bytes, List.append_assoc] at hrest
    rw [Payload.varints, Payload.wireType, if_neg (by decide), if_pos rfl, readVarint_eq size hrest]
    by_cases hread : Readable size
    · have hbody := hrest.skip
      have hend := hbody.length
      rw [List.length_append] at hend
      rw [if_pos hread, if_pos (by simpa using hread), ok_bind]
      dsimp only
      rw [hbs, failIf_bind (by omega), hbody.slice, Payload.bytes, List.length_append,
        ← Nat.add_assoc]
      rfl
    · rw [if_neg hread, if_neg (by simpa using hread)]
      rfl
  | fixed32 bs hbs =>
    rw [Payload.bytes, hbs] at hlength
    rw [Payload.varints, Payload.wireType, if_neg (by decide), if_neg (by decide),
      skipProtobufField,
      if_neg (by decide), if_neg (by decide), if_neg (by decide), if_pos rfl,
      failIf_bind (by omega), if_pos (by simp), Payload.bytes, hbs]
    rfl

/-- **A field is read** just if its varints are readable. -/
theorem readField_field (h : At bytes s.offset (field.bytes ++ rest)) :
    readField bytes s =
      if ∀ v ∈ field.varints, Readable v then
        .ok ⟨s.offset + field.bytes.length, s.fields ++ [parsedField field]⟩
      else failure .invalid_container := by
  by_cases hkey : Readable field.key
  · rw [readPayload hkey h rfl, Field.bytes, List.length_append, ← Nat.add_assoc, Field.varints]
    simp only [List.forall_mem_cons, hkey, true_and]
  · have hat := h
    rw [Field.bytes, List.append_assoc] at hat
    rw [readField, readVarint_eq field.key hat, if_neg hkey,
      if_neg fun hall => hkey (hall _ List.mem_cons_self)]
    rfl

/-- The loop reads field after field, as long as their varints are readable. -/
theorem readFields_eq {fields : List Field} (h : At bytes s.offset (messageBytes fields))
    (hpasses : fields.length ≤ passes) :
    (∃ s', scan FieldsState.offset bytes (readField bytes) passes s = .ok s' ∧
      s'.fields = s.fields ++ fields.map parsedField ∧ ∀ v ∈ messageVarints fields, Readable v) ∨
    (scan FieldsState.offset bytes (readField bytes) passes s = failure .invalid_container ∧
      ¬∀ v ∈ messageVarints fields, Readable v) := by
  induction fields generalizing passes s with
  | nil =>
    refine Or.inl ⟨s, scan_done _ (h.nil_iff.mp rfl), ?_, nofun⟩
    rw [List.map_nil, List.append_nil]
  | cons field fields ih =>
    rw [messageBytes, List.flatMap_cons] at h
    rw [messageVarints, List.flatMap_cons, List.forall_mem_append]
    have hrun : s.offset < bytes.length := by
      have hlength := h.length
      have hpos := field.bytes_length_pos
      rw [List.length_append] at hlength
      omega
    obtain ⟨passes, rfl⟩ := Nat.exists_eq_add_of_le' (Nat.one_le_of_lt (Nat.lt_of_lt_of_le
      (Nat.succ_pos _) hpasses))
    have hread := readField_field h
    by_cases hreadable : ∀ v ∈ field.varints, Readable v
    · rw [if_pos hreadable] at hread
      rw [scan_step FieldsState.offset hrun hread]
      rcases ih (s := ⟨_, _⟩) h.skip (Nat.le_of_succ_le_succ hpasses) with
        ⟨s', hscan, hfields, hrest⟩ | ⟨hscan, hrest⟩
      · refine Or.inl ⟨s', hscan, ?_, hreadable, hrest⟩
        rw [hfields, List.map_cons, List.append_assoc]
        rfl
      · exact Or.inr ⟨hscan, fun hall => hrest hall.2⟩
    · rw [if_neg hreadable] at hread
      exact Or.inr ⟨scan_fail FieldsState.offset hrun hread, fun hall => hreadable hall.1⟩

/-- **The fields of a message** are listed just if its varints are readable. -/
theorem parseProtobufFields_message (fields : List Field) :
    parseProtobufFields (messageBytes fields) = .ok (fields.map parsedField) ↔
      ∀ v ∈ messageVarints fields, Readable v := by
  have hpasses := length_le_messageBytes fields
  rcases readFields_eq (s := ⟨0, []⟩) (at_zero (messageBytes fields))
    (Nat.le_succ_of_le hpasses) with ⟨s', hscan, hfields, hreadable⟩ | ⟨hscan, hreadable⟩
  · rw [parseProtobufFields, hscan, ok_bind, hfields]
    exact iff_of_true rfl hreadable
  · rw [parseProtobufFields, hscan]
    exact iff_of_false nofun hreadable

/-! ### The results -/

/-- **Each decoder matches its format** just where the varints are of eight bytes at most and safe
integers:

* a Snappy block decodes to what its elements define just if the varint of its length is readable;
* what is decoded is a block within the limits, and everything else is refused;
* frames decode to their outputs, one after the other, just if none takes them over the limits;
* the fields of a message are listed just if all its varints are readable. -/
theorem numbers_decoders (block : Block) (bytes : List UInt8) (frames : List Frame)
    (fields : List Field) :
    (block.output.length ≤ ZIP_MAX_UNCOMPRESSED_BYTES →
      (decodeSnappyBlock block.bytes = .ok block.output ↔ Readable block.total)) ∧
    ((∃ block : Block, block.bytes = bytes ∧ decodeSnappyBlock bytes = .ok block.output ∧
        Readable block.total ∧ block.output.length ≤ ZIP_MAX_UNCOMPRESSED_BYTES) ∨
      ∃ code, decodeSnappyBlock bytes = failure code) ∧
    (decodeIwa (frames.flatMap Frame.bytes) = .ok (frames.flatMap Frame.output) ↔
      WithinLimits 0 0 frames) ∧
    (parseProtobufFields (messageBytes fields) = .ok (fields.map parsedField) ↔
      ∀ v ∈ messageVarints fields, Readable v) := by
  refine ⟨decodeSnappyBlock_block block, ?_, decodeIwa_frames frames,
    parseProtobufFields_message fields⟩
  cases hdecode : decodeSnappyBlock bytes with
  | ok output =>
    obtain ⟨block, hbytes, rfl, hbounds⟩ := decodeSnappyBlock_eq_ok hdecode
    exact Or.inl ⟨block, hbytes, rfl, hbounds⟩
  | error e =>
    obtain ⟨code, rfl⟩ := contained_decodeSnappyBlock e hdecode
    exact Or.inr ⟨code, rfl⟩

/-! ### A negative integer -/

/-- The varint of `-1`, as protobuf writes it for an `int32`. -/
def negativeOne : Varint := .ofLength 9 (2 ^ 64 - 1) (by decide)

/-- Field 1, with the value `-1`. -/
def negativeField : Field where
  key := .ofLength 0 8 (by decide)
  number := 1
  payload := .varint negativeOne ⟨by decide, by decide⟩
  legal := ⟨by decide, by decide⟩
  positive := le_refl _
  key_eq := rfl

/-- **A negative integer is refused**, though its message is well formed. -/
theorem negative_integer_refused :
    parseProtobufFields (messageBytes [negativeField]) = failure .invalid_container ∧
      ¬∀ fields : List Field,
        parseProtobufFields (messageBytes fields) = .ok (fields.map parsedField) := by
  have hrefused : parseProtobufFields (messageBytes [negativeField]) =
      failure .invalid_container := by decide
  refine ⟨hrefused, fun hall => ?_⟩
  have haccepted := hall [negativeField]
  rw [hrefused] at haccepted
  exact absurd haccepted nofun

end MailPortal.Documents
