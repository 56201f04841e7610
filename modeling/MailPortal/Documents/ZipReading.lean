import MailPortal.Documents.ZipReader

/-!
# What an Accepted ZIP Container is

Whatever the bytes, `zipEntries` refuses them or returns the files of a container with one reading:
the local records tile the bytes before the central directory, the central records tile the
directory, and the end record with its comment tiles the rest.

Main results:

* `zipEntries_reads` : the reading of an accepted container.
* `contained_zipEntries` : there is no read outside the bytes, and no endless loop.
-/

namespace MailPortal.Documents

open Bytes Failure Tiling

variable {value name : String} {data extra : List UInt8} {count : ℕ}

/-! ### The fields of the records -/

def centralAt (bytes : List UInt8) (offset : ℕ) : CentralHeader where
  flags := uint16 bytes (offset + 8)
  method := uint16 bytes (offset + 10)
  crc := uint32 bytes (offset + 16)
  compressedSize := uint32 bytes (offset + 20)
  uncompressedSize := uint32 bytes (offset + 24)
  nameLength := uint16 bytes (offset + 28)
  extraLength := uint16 bytes (offset + 30)
  commentLength := uint16 bytes (offset + 32)
  localOffset := uint32 bytes (offset + 42)

def localAt (bytes : List UInt8) (offset : ℕ) : LocalHeader where
  flags := uint16 bytes (offset + 6)
  method := uint16 bytes (offset + 8)
  crc := uint32 bytes (offset + 14)
  compressedSize := uint32 bytes (offset + 18)
  uncompressedSize := uint32 bytes (offset + 22)
  nameLength := uint16 bytes (offset + 26)
  extraLength := uint16 bytes (offset + 28)

def endAt (bytes : List UInt8) (offset : ℕ) : EndRecord where
  disk := uint16 bytes (offset + 4)
  centralDisk := uint16 bytes (offset + 6)
  diskEntries := uint16 bytes (offset + 8)
  totalEntries := uint16 bytes (offset + 10)
  centralSize := uint32 bytes (offset + 12)
  centralOffset := uint32 bytes (offset + 16)

/-- An end record whose comment ends at the last byte. -/
def IsEnd (bytes : List UInt8) (offset : ℕ) : Prop :=
  uint32 bytes offset = ZIP_END_SIGNATURE ∧
    offset + 22 + uint16 bytes (offset + 20) = bytes.length

instance (bytes : List UInt8) (offset : ℕ) : Decidable (IsEnd bytes offset) :=
  inferInstanceAs (Decidable (_ ∧ _))

variable {bytes : List UInt8} {offset : ℕ}

theorem readCentral_eq (h : offset + 46 ≤ bytes.length) : readCentral bytes offset =
    if uint32 bytes offset = ZIP_CENTRAL_SIGNATURE then .ok (centralAt bytes offset)
    else failure .invalid_container := by
  rw [readCentral, boundedView_eq h, ok_bind, getUint32_view h (by omega), ok_bind, Nat.add_zero]
  by_cases hsignature : uint32 bytes offset = ZIP_CENTRAL_SIGNATURE
  · rw [if_pos hsignature, failIf_bind (not_not_intro hsignature), getUint16_view h (by omega),
      ok_bind, getUint16_view h (by omega), ok_bind, getUint32_view h (by omega), ok_bind,
      getUint32_view h (by omega), ok_bind, getUint32_view h (by omega), ok_bind,
      getUint16_view h (by omega), ok_bind, getUint16_view h (by omega), ok_bind,
      getUint16_view h (by omega), ok_bind, getUint32_view h (by omega), ok_bind]
    rfl
  · rw [if_neg hsignature, failIf_bind_of hsignature]

theorem readLocal_eq (h : offset + 30 ≤ bytes.length) : readLocal bytes offset =
    if uint32 bytes offset = ZIP_LOCAL_SIGNATURE then .ok (localAt bytes offset)
    else failure .invalid_container := by
  rw [readLocal, boundedView_eq h, ok_bind, getUint32_view h (by omega), ok_bind, Nat.add_zero]
  by_cases hsignature : uint32 bytes offset = ZIP_LOCAL_SIGNATURE
  · rw [if_pos hsignature, failIf_bind (not_not_intro hsignature), getUint16_view h (by omega),
      ok_bind, getUint16_view h (by omega), ok_bind, getUint32_view h (by omega), ok_bind,
      getUint32_view h (by omega), ok_bind, getUint32_view h (by omega), ok_bind,
      getUint16_view h (by omega), ok_bind, getUint16_view h (by omega), ok_bind]
    rfl
  · rw [if_neg hsignature, failIf_bind_of hsignature]

theorem readEnd_eq (h : offset + 22 ≤ bytes.length) :
    readEnd bytes offset = .ok (endAt bytes offset) := by
  rw [readEnd, boundedView_eq h, ok_bind, getUint16_view h (by omega), ok_bind,
    getUint16_view h (by omega), ok_bind, getUint16_view h (by omega), ok_bind,
    getUint16_view h (by omega), ok_bind, getUint32_view h (by omega), ok_bind,
    getUint32_view h (by omega), ok_bind]
  rfl

section Headers

variable {Header : Type} {read : Reader Header} {size signature : ℕ} {header : Header}
  (hin : offset + size ≤ bytes.length → read =
    if uint32 bytes offset = signature then .ok header else failure .invalid_container)
  (hout : ¬ offset + size ≤ bytes.length → read = failure .invalid_container)

include hin hout

/-- A header that is read is within the bytes. -/
theorem header_eq_ok {header' : Header} : read = .ok header' ↔
    offset + size ≤ bytes.length ∧ uint32 bytes offset = signature ∧ header = header' := by
  by_cases h : offset + size ≤ bytes.length
  · rw [hin h]
    split
    · exact ⟨fun heq => ⟨h, ‹_›, Except.ok.inj heq⟩, fun heq => congrArg _ heq.2.2⟩
    · refine ⟨fun heq => ?_, fun heq => absurd heq.2.1 ‹_›⟩
      cases heq
  · refine ⟨fun heq => ?_, fun heq => absurd heq.1 h⟩
    rw [hout h] at heq
    cases heq

theorem contained_header : Contained read := by
  by_cases h : offset + size ≤ bytes.length
  · rw [hin h]
    exact contained_ite (fun _ => contained_ok _) fun _ => contained_failure
  · rw [hout h]
    exact contained_failure

end Headers

theorem readCentral_outside (h : ¬ offset + 46 ≤ bytes.length) :
    readCentral bytes offset = failure .invalid_container := by
  rw [readCentral, boundedView, failIf_bind_of (Nat.not_le.mp h)]
  rfl

theorem readLocal_outside (h : ¬ offset + 30 ≤ bytes.length) :
    readLocal bytes offset = failure .invalid_container := by
  rw [readLocal, boundedView, failIf_bind_of (Nat.not_le.mp h)]
  rfl

/-! ### The end record -/

/-- An end record is looked for from behind, until there is one. -/
theorem findZipEndFrom_eq (bytes : List UInt8) (minimum passes : ℕ)
    (h : minimum + passes + 21 ≤ bytes.length) :
    (∃ endOffset, findZipEndFrom bytes minimum passes = .ok endOffset ∧ minimum ≤ endOffset ∧
      endOffset < minimum + passes ∧ IsEnd bytes endOffset ∧
      ∀ other, endOffset < other → other < minimum + passes → ¬IsEnd bytes other) ∨
    (findZipEndFrom bytes minimum passes = failure .invalid_container ∧
      ∀ other, minimum ≤ other → other < minimum + passes → ¬IsEnd bytes other) := by
  induction passes with
  | zero => exact Or.inr ⟨rfl, fun other hle hlt => by omega⟩
  | succ passes ih =>
    have hview : minimum + passes + 4 ≤ bytes.length := by omega
    have hcomment : minimum + passes + 20 + 2 ≤ bytes.length := by omega
    have hread : findZipEndFrom bytes minimum (passes + 1) =
        if IsEnd bytes (minimum + passes) then .ok (minimum + passes)
        else findZipEndFrom bytes minimum passes := by
      rw [findZipEndFrom]
      rw [boundedView_eq hview, ok_bind, getUint32_view hview (by omega), ok_bind, Nat.add_zero]
      by_cases hsignature : uint32 bytes (minimum + passes) = ZIP_END_SIGNATURE
      · rw [if_pos hsignature, boundedView_eq hcomment, ok_bind,
          getUint16_view hcomment (by omega), ok_bind, Nat.add_zero]
        by_cases hlength :
            minimum + passes + 22 + uint16 bytes (minimum + passes + 20) = bytes.length
        · rw [if_pos hlength, if_pos ⟨hsignature, hlength⟩]
          rfl
        · rw [if_neg hlength, if_neg fun hend => hlength hend.2]
      · rw [if_neg hsignature, if_neg fun hend => hsignature hend.1]
    rw [hread]
    by_cases hend : IsEnd bytes (minimum + passes)
    · rw [if_pos hend]
      exact Or.inl ⟨_, rfl, by omega, by omega, hend, fun other hlow hhigh => by omega⟩
    · rw [if_neg hend]
      rcases ih (by omega) with ⟨endOffset, hfound, hle, hlt, hisEnd, hlast⟩ | ⟨hfound, hnone⟩
      · refine Or.inl ⟨endOffset, hfound, hle, by omega, hisEnd, fun other hlow hhigh => ?_⟩
        rcases Nat.lt_succ_iff_lt_or_eq.mp hhigh with hhigh | rfl
        · exact hlast other hlow hhigh
        · exact hend
      · refine Or.inr ⟨hfound, fun other hlow hhigh => ?_⟩
        rcases Nat.lt_succ_iff_lt_or_eq.mp hhigh with hhigh | rfl
        · exact hnone other hlow hhigh
        · exact hend

/-- Where an end record may be. -/
theorem IsEnd.bounds (h : IsEnd bytes offset) :
    offset + 22 ≤ bytes.length ∧ bytes.length - 65557 ≤ offset := by
  have hcomment : uint16 bytes (offset + 20) < 256 ^ 2 := by
    refine (littleEndian_lt _).trans_le (Nat.pow_le_pow_right (by decide) ?_)
    rw [slice, List.length_drop, List.length_take]
    omega
  have hlength := h.2
  omega

/-- **The last end record** is found, if there is one. -/
theorem findZipEnd_eq_ok (hbytes : 22 ≤ bytes.length) : findZipEnd bytes = .ok offset ↔
    IsEnd bytes offset ∧ ∀ other, offset < other → ¬IsEnd bytes other := by
  unfold findZipEnd
  rcases findZipEndFrom_eq bytes (bytes.length - 65557)
    (bytes.length - 22 + 1 - (bytes.length - 65557)) (by omega) with
    ⟨endOffset, hfound, hle, hlt, hisEnd, hlast⟩ | ⟨hfound, hnone⟩
  · rw [hfound]
    have hbehind : ∀ other, endOffset < other → ¬IsEnd bytes other := by
      intro other hlow hother
      have hbounds := hother.bounds
      exact hlast other hlow (by omega) hother
    constructor
    · intro heq
      cases heq
      exact ⟨hisEnd, hbehind⟩
    · rintro ⟨hoffset, hnone⟩
      rcases Nat.lt_trichotomy endOffset offset with hlt' | rfl | hlt'
      · exact absurd hoffset (hbehind offset hlt')
      · rfl
      · exact absurd hisEnd (hnone endOffset hlt')
  · rw [hfound]
    refine ⟨nofun, fun ⟨hoffset, _⟩ => ?_⟩
    have hbounds := hoffset.bounds
    exact absurd hoffset (hnone offset hbounds.2 (by omega))

theorem contained_findZipEnd (hbytes : 22 ≤ bytes.length) : Contained (findZipEnd bytes) := by
  unfold findZipEnd
  rcases findZipEndFrom_eq bytes (bytes.length - 65557)
    (bytes.length - 22 + 1 - (bytes.length - 65557)) (by omega) with
    ⟨endOffset, hfound, -⟩ | ⟨hfound, -⟩
  · rw [hfound]
    exact contained_ok _
  · rw [hfound]
    exact contained_failure

/-! ### Names and extra fields -/

/-- A name that is relative and free of `.` and `..`. -/
structure SafeName (name : String) : Prop where
  nonempty : name ≠ ""
  short : codeUnits name ≤ 1024
  plain : name.toList.any isForbiddenInName = false
  relative : name.toList.head? ≠ some '/'
  noDrive : startsWithDrive name.toList = false
  segments : ∀ piece ∈ segments name, piece ≠ ['.'] ∧ piece ≠ ['.', '.']

theorem safeZipName_eq_ok : safeZipName value = .ok name ↔ SafeName value ∧ value = name := by
  rw [safeZipName, bind_eq_ok]
  constructor
  · rintro ⟨_, hform, h⟩
    rw [bind_eq_ok] at h
    obtain ⟨_, hpieces, h⟩ := h
    rw [failIf_eq_ok] at hform hpieces
    simp only [not_or, Bool.not_eq_true, Nat.not_lt] at hform
    simp only [List.any_eq_true, not_exists, not_and, Bool.or_eq_true, decide_eq_true_eq,
      not_or] at hpieces
    obtain ⟨hnonempty, hshort, hplain, hrelative, hdrive⟩ := hform
    exact ⟨⟨hnonempty, hshort, hplain, hrelative, hdrive,
      fun piece hmem => (hpieces piece hmem).symm⟩, Except.ok.inj h⟩
  · rintro ⟨hsafe, rfl⟩
    refine ⟨(), failIf_eq_ok.mpr ?_, ?_⟩
    · simp only [not_or, Bool.not_eq_true, Nat.not_lt]
      exact ⟨hsafe.nonempty, hsafe.short, hsafe.plain, hsafe.relative, hsafe.noDrive⟩
    · rw [bind_eq_ok]
      refine ⟨(), failIf_eq_ok.mpr ?_, rfl⟩
      simp only [List.any_eq_true, not_exists, not_and, Bool.or_eq_true, decide_eq_true_eq, not_or]
      exact fun piece hmem => (hsafe.segments piece hmem).symm

theorem contained_safeZipName : Contained (safeZipName value) :=
  contained_bind contained_failIf fun _ _ => contained_bind contained_failIf fun _ _ =>
    contained_ok _

theorem decodeUtf8_eq_ok {text : String} :
    decodeUtf8 data = .ok text ↔ utf8Decode data = some text := orThrow_eq_ok

theorem contained_decodeUtf8 : Contained (decodeUtf8 data) := by
  unfold decodeUtf8
  cases utf8Decode data with
  | none => exact contained_failure
  | some text => exact contained_ok text

/-- A pass over the extra fields moves on. -/
theorem lt_of_validateField {s s' : ExtraState} (h : validateField extra s = .ok s') :
    s.offset < s'.offset := by
  rw [validateField, bind_eq_ok] at h
  obtain ⟨_, -, h⟩ := h
  rw [bind_eq_ok] at h
  obtain ⟨_, -, h⟩ := h
  rw [bind_eq_ok] at h
  obtain ⟨_, -, h⟩ := h
  rw [bind_eq_ok] at h
  obtain ⟨_, -, h⟩ := h
  rw [bind_eq_ok] at h
  obtain ⟨_, -, h⟩ := h
  rw [← Except.ok.inj h]
  dsimp only
  omega

theorem contained_validateField {s : ExtraState} : Contained (validateField extra s) := by
  by_cases hroom : s.offset + 4 ≤ extra.length
  · rw [validateField, failIf_bind (Nat.not_lt.mpr hroom), boundedView_eq hroom, ok_bind,
      getUint16_view hroom (by omega), ok_bind, getUint16_view hroom (by omega), ok_bind]
    exact contained_bind contained_failIf fun _ _ => contained_ok _
  · rw [validateField, failIf_bind_of (Nat.not_le.mp hroom)]
    exact contained_failure

theorem contained_validateZipExtra : Contained (validateZipExtra extra) := by
  refine contained_bind ?_ fun _ _ => contained_ok _
  exact contained_scan ExtraState.offset (fun _ => True) trivial (by omega)
    (fun _ _ _ _ hpass => ⟨trivial, lt_of_validateField hpass⟩) fun _ _ _ => contained_validateField

/-! ### One record -/

/-- A file of a container: what is listed, and where its records are. -/
structure FileRecord where
  entry : ZipEntry
  centralSpan : ℕ × ℕ
  localSpan : ℕ × ℕ

variable {records : List FileRecord}

def FileRecord.central (bytes : List UInt8) (r : FileRecord) : CentralHeader :=
  centralAt bytes r.centralSpan.1

def FileRecord.header (bytes : List UInt8) (r : FileRecord) : LocalHeader :=
  localAt bytes r.localSpan.1

/-- The records are in the bytes, and agree. -/
structure FileRecord.Reads (bytes : List UInt8) (r : FileRecord) : Prop where
  centralSignature : uint32 bytes r.centralSpan.1 = ZIP_CENTRAL_SIGNATURE
  localSignature : uint32 bytes r.localSpan.1 = ZIP_LOCAL_SIGNATURE
  centralEnd : r.centralSpan.2 = r.centralSpan.1 + 46 + (r.central bytes).nameLength +
    (r.central bytes).extraLength + (r.central bytes).commentLength
  localStart : (r.central bytes).localOffset = r.localSpan.1
  dataStart : r.entry.dataStart = r.localSpan.1 + 30 + (r.header bytes).nameLength +
    (r.header bytes).extraLength
  localEnd : r.localSpan.2 = r.entry.dataStart + r.entry.compressedSize
  centralName : utf8Decode (slice bytes (r.centralSpan.1 + 46)
    (r.centralSpan.1 + 46 + (r.central bytes).nameLength)) = some r.entry.name
  localName : utf8Decode (slice bytes (r.localSpan.1 + 30)
    (r.localSpan.1 + 30 + (r.header bytes).nameLength)) = some r.entry.name
  flags : (r.header bytes).flags = (r.central bytes).flags
  method : r.entry.method = (r.central bytes).method ∧ r.entry.method = (r.header bytes).method
  crc : r.entry.crc = (r.central bytes).crc ∧ r.entry.crc = (r.header bytes).crc
  compressedSize : r.entry.compressedSize = (r.central bytes).compressedSize ∧
    r.entry.compressedSize = (r.header bytes).compressedSize
  uncompressedSize : r.entry.uncompressedSize = (r.central bytes).uncompressedSize ∧
    r.entry.uncompressedSize = (r.header bytes).uncompressedSize

/-- The sizes of the entry are within the ratio. -/
def ZipEntry.WithinRatio (entry : ZipEntry) : Prop :=
  entry.uncompressedSize ≤ ZIP_MAX_RATIO * entry.compressedSize

/-- What the loop over the central records has read. -/
structure HasRead (toLowerCase : String → String) (bytes : List UInt8) (centralOffset : ℕ)
    (s : ZipState) (records : List FileRecord) : Prop where
  entries : s.entries = records.map (·.entry)
  ranges : s.ranges = records.map (·.localSpan)
  names : ∀ x, x ∈ s.names ↔ x ∈ records.map fun r => toLowerCase r.entry.name
  distinct : (records.map fun r => toLowerCase r.entry.name).Nodup
  compressed : s.totalCompressed = (records.map (·.entry.compressedSize)).sum
  uncompressed : s.totalUncompressed = (records.map (·.entry.uncompressedSize)).sum
  limit : s.totalUncompressed ≤ ZIP_MAX_UNCOMPRESSED_BYTES
  directory : Tiles centralOffset s.offset (records.map (·.centralSpan))
  reads : ∀ r ∈ records, r.Reads bytes
  safe : ∀ r ∈ records, SafeName r.entry.name
  ratio : ∀ r ∈ records, r.entry.WithinRatio
  spans : ∀ r ∈ records, r.localSpan.1 ≤ r.localSpan.2

variable {toLowerCase : String → String} {centralOffset endOffset : ℕ} {s s' : ZipState}
variable {central : CentralHeader}

/-- The local record that is read agrees with the central one. -/
theorem readMatchingLocal_eq_ok {dataStart : ℕ}
    (h : readMatchingLocal bytes centralOffset central name = .ok dataStart) :
    let header := localAt bytes central.localOffset
    uint32 bytes central.localOffset = ZIP_LOCAL_SIGNATURE ∧
      dataStart = central.localOffset + 30 + header.nameLength + header.extraLength ∧
      utf8Decode (slice bytes (central.localOffset + 30)
        (central.localOffset + 30 + header.nameLength)) = some name ∧
      header.flags = central.flags ∧ header.method = central.method ∧ header.crc = central.crc ∧
      header.compressedSize = central.compressedSize ∧
      header.uncompressedSize = central.uncompressedSize := by
  rw [readMatchingLocal, bind_eq_ok] at h
  obtain ⟨header, hheader, h⟩ := h
  rw [header_eq_ok readLocal_eq readLocal_outside] at hheader
  obtain ⟨-, hsignature, rfl⟩ := hheader
  rw [bind_eq_ok] at h
  obtain ⟨_, -, h⟩ := h
  rw [bind_eq_ok] at h
  obtain ⟨localName, hname, h⟩ := h
  rw [bind_eq_ok] at h
  obtain ⟨_, hagree, h⟩ := h
  rw [bind_eq_ok] at h
  obtain ⟨_, -, h⟩ := h
  rw [bind_eq_ok] at h
  obtain ⟨_, hsizes, h⟩ := h
  rw [bind_eq_ok] at h
  obtain ⟨_, -, h⟩ := h
  rw [failIf_eq_ok] at hagree hsizes
  simp only [not_or, not_not] at hagree hsizes
  obtain ⟨hflags, hmethod, rfl⟩ := hagree
  obtain ⟨hcrc, hcompressed, huncompressed⟩ := hsizes
  exact ⟨hsignature, (Except.ok.inj h).symm, decodeUtf8_eq_ok.mp hname, hflags, hmethod, hcrc,
    hcompressed, huncompressed⟩

/-- What is declared is within the limits. -/
theorem checkDeclared_eq_ok {u : Unit} (h : checkDeclared s central = .ok u) :
    central.uncompressedSize ≤ ZIP_MAX_RATIO * central.compressedSize ∧
      s.totalUncompressed + central.uncompressedSize ≤ ZIP_MAX_UNCOMPRESSED_BYTES := by
  rw [checkDeclared, bind_eq_ok] at h
  obtain ⟨_, -, h⟩ := h
  rw [bind_eq_ok] at h
  obtain ⟨_, -, h⟩ := h
  rw [bind_eq_ok] at h
  obtain ⟨_, -, h⟩ := h
  rw [bind_eq_ok] at h
  obtain ⟨_, -, h⟩ := h
  rw [bind_eq_ok] at h
  obtain ⟨_, hratio, h⟩ := h
  rw [failIf_eq_ok] at hratio h
  rw [ ZIP_MAX_RATIO] at hratio ⊢
  exact ⟨by omega, by omega⟩

/-- **One pass** reads one record. -/
theorem readRecord_eq_ok (hs : HasRead toLowerCase bytes centralOffset s records)
    (h : readRecord toLowerCase bytes centralOffset endOffset s = .ok s') :
    ∃ r, HasRead toLowerCase bytes centralOffset s' (records ++ [r]) := by
  rw [readRecord, bind_eq_ok] at h
  obtain ⟨central, hcentral, h⟩ := h
  rw [header_eq_ok readCentral_eq readCentral_outside] at hcentral
  obtain ⟨-, hsignature, rfl⟩ := hcentral
  rw [bind_eq_ok] at h
  obtain ⟨_, -, h⟩ := h
  rw [bind_eq_ok] at h
  obtain ⟨decoded, hdecoded, h⟩ := h
  rw [bind_eq_ok] at h
  obtain ⟨name, hname, h⟩ := h
  obtain ⟨hsafe, rfl⟩ := safeZipName_eq_ok.mp hname
  rw [bind_eq_ok] at h
  obtain ⟨_, -, h⟩ := h
  rw [bind_eq_ok] at h
  obtain ⟨_, hnew, h⟩ := h
  rw [bind_eq_ok] at h
  obtain ⟨_, hdeclared, h⟩ := h
  rw [bind_eq_ok] at h
  obtain ⟨dataStart, hlocal, h⟩ := h
  rw [failIf_eq_ok] at hnew
  obtain ⟨hratio, hlimit⟩ := checkDeclared_eq_ok hdeclared
  obtain ⟨hlocalSignature, rfl, hlocalName, hflags, hmethod, hcrc, hcompressed, huncompressed⟩ :=
    readMatchingLocal_eq_ok hlocal
  cases h
  set central := centralAt bytes s.offset with hcentral
  set header := localAt bytes central.localOffset with hheader
  set dataStart := central.localOffset + 30 + header.nameLength + header.extraLength with hstart
  let r : FileRecord :=
    { entry := ⟨decoded, central.method, central.crc, central.compressedSize,
        central.uncompressedSize, dataStart⟩
      centralSpan := (s.offset, s.offset + 46 + central.nameLength + central.extraLength +
        central.commentLength)
      localSpan := (central.localOffset, dataStart + central.compressedSize) }
  have hreads : r.Reads bytes :=
    { centralSignature := hsignature
      localSignature := hlocalSignature
      centralEnd := rfl
      localStart := rfl
      dataStart := rfl
      localEnd := rfl
      centralName := decodeUtf8_eq_ok.mp hdecoded
      localName := hlocalName
      flags := hflags
      method := ⟨rfl, hmethod.symm⟩
      crc := ⟨rfl, hcrc.symm⟩
      compressedSize := ⟨rfl, hcompressed.symm⟩
      uncompressedSize := ⟨rfl, huncompressed.symm⟩ }
  refine ⟨r, ?_, ?_, ?_, ?_, ?_, ?_, hlimit, ?_, ?_, ?_, ?_, ?_⟩
  · rw [hs.entries, List.map_append]
    rfl
  · rw [hs.ranges, List.map_append]
    rfl
  · intro x
    rw [List.map_append, List.mem_append, ← hs.names, List.map_singleton, List.mem_singleton,
      List.mem_cons, or_comm]
  · rw [List.map_append, List.nodup_append]
    refine ⟨hs.distinct, List.nodup_singleton _, ?_⟩
    rintro x hx y hy rfl
    rw [List.map_singleton, List.mem_singleton] at hy
    rw [hy, ← hs.names] at hx
    exact hnew hx
  · rw [List.map_append, List.sum_append, ← hs.compressed]
    rfl
  · rw [List.map_append, List.sum_append, ← hs.uncompressed]
    rfl
  · have hle : s.offset ≤ r.centralSpan.2 := by
      dsimp only [r]
      omega
    rw [List.map_append]
    exact hs.directory.concat rfl hle
  · exact List.forall_mem_append.mpr ⟨hs.reads, List.forall_mem_singleton.mpr hreads⟩
  · exact List.forall_mem_append.mpr ⟨hs.safe, List.forall_mem_singleton.mpr hsafe⟩
  · exact List.forall_mem_append.mpr ⟨hs.ratio, List.forall_mem_singleton.mpr hratio⟩
  · refine List.forall_mem_append.mpr ⟨hs.spans, List.forall_mem_singleton.mpr ?_⟩
    dsimp only [r]
    omega

/-- The loop reads record after record. -/
theorem readRecords_eq_ok (hs : HasRead toLowerCase bytes centralOffset s records)
    (h : readRecords toLowerCase bytes centralOffset endOffset count s = .ok s') :
    ∃ more, more.length = count ∧
      HasRead toLowerCase bytes centralOffset s' (records ++ more) := by
  induction count generalizing s records with
  | zero =>
    cases h
    exact ⟨[], rfl, by rwa [List.append_nil]⟩
  | succ count ih =>
    rw [readRecords, bind_eq_ok] at h
    obtain ⟨s₁, hfirst, hrest⟩ := h
    obtain ⟨r, hs₁⟩ := readRecord_eq_ok hs hfirst
    obtain ⟨more, rfl, hmore⟩ := ih hs₁ hrest
    refine ⟨r :: more, rfl, ?_⟩
    rwa [List.append_assoc, List.singleton_append] at hmore

/-! ### The container -/

/-- **One reading of a container**: what it lists, and which bytes are which record. -/
structure ZipReading (toLowerCase : String → String) (bytes : List UInt8)
    (entries : List ZipEntry) (records : List FileRecord) (centralOffset endOffset : ℕ) : Prop where
  listed : records.map (·.entry) = entries
  reads : ∀ r ∈ records, r.Reads bytes
  /-- The local records, in some order, tile the bytes before the directory. -/
  locals : ∃ spans, spans.Perm (records.map (·.localSpan)) ∧ Tiles 0 centralOffset spans
  directory : Tiles centralOffset endOffset (records.map (·.centralSpan))
  endRecord : IsEnd bytes endOffset
  endFields : endAt bytes endOffset =
    ⟨0, 0, entries.length, entries.length, endOffset - centralOffset, centralOffset⟩
  distinct : (entries.map fun entry => toLowerCase entry.name).Nodup
  safe : ∀ entry ∈ entries, SafeName entry.name
  ratio : ∀ entry ∈ entries, entry.WithinRatio
  count : 0 < entries.length ∧ entries.length ≤ ZIP_MAX_ENTRIES
  total : (entries.map (·.uncompressedSize)).sum ≤ ZIP_MAX_UNCOMPRESSED_BYTES

/-- Ranges that are compared tile what is before the directory. -/
theorem compareRanges_eq_ok {ranges : List (ℕ × ℕ)} {u : Unit}
    (hspan : ∀ span ∈ ranges, span.1 ≤ span.2) (h : compareRanges ranges centralOffset = .ok u) :
    ∃ spans, spans.Perm ranges ∧ Tiles 0 centralOffset spans := by
  rw [compareRanges, bind_eq_ok] at h
  obtain ⟨_, hends, h⟩ := h
  rw [failIf_eq_ok] at hends h
  simp only [not_or, not_not, ne_eq] at hends
  have hperm := List.mergeSort_perm ranges fun left right => left.1 ≤ right.1
  refine ⟨_, hperm, tiles_of_touches (fun span hmem => hspan span (hperm.mem_iff.mp hmem)) ?_
    hends.1 hends.2⟩
  exact Bool.of_not_eq_false h

/-- **What is accepted has a reading.** -/
theorem zipEntries_reads {entries : List ZipEntry}
    (h : zipEntries toLowerCase bytes = .ok entries) :
    ∃ records centralOffset endOffset,
      ZipReading toLowerCase bytes entries records centralOffset endOffset := by
  rw [zipEntries, bind_eq_ok] at h
  obtain ⟨_, hbytes, h⟩ := h
  rw [failIf_eq_ok, Nat.not_lt] at hbytes
  rw [bind_eq_ok] at h
  obtain ⟨endOffset, hend, h⟩ := h
  obtain ⟨hisEnd, -⟩ := (findZipEnd_eq_ok hbytes).mp hend
  rw [readEnd_eq hisEnd.bounds.1, ok_bind, bind_eq_ok] at h
  obtain ⟨_, hfields, h⟩ := h
  rw [bind_eq_ok] at h
  obtain ⟨s, hrecords, h⟩ := h
  rw [bind_eq_ok] at h
  obtain ⟨_, hoffset, h⟩ := h
  rw [bind_eq_ok] at h
  obtain ⟨_, hranges, h⟩ := h
  cases h
  rw [failIf_eq_ok] at hfields hoffset
  simp only [not_or, not_not, Nat.not_lt, ne_eq] at hfields hoffset
  obtain ⟨hdisk, hcentralDisk, hdiskEntries, hpos, hcount, -, -, -, hdirectory⟩ := hfields
  have hstart : HasRead toLowerCase bytes (endAt bytes endOffset).centralOffset
      ⟨(endAt bytes endOffset).centralOffset, [], [], [], 0, 0⟩ [] :=
    ⟨rfl, rfl, fun _ => Iff.rfl, List.nodup_nil, rfl, rfl, Nat.zero_le _, rfl,
      List.forall_mem_nil _, List.forall_mem_nil _, List.forall_mem_nil _, List.forall_mem_nil _⟩
  obtain ⟨records, hlength, hs⟩ := readRecords_eq_ok hstart hrecords
  rw [List.nil_append] at hs
  have hentries : s.entries.length = (endAt bytes endOffset).totalEntries := by
    rw [hs.entries, List.length_map, hlength]
  have hspans : ∀ span ∈ s.ranges, span.1 ≤ span.2 := by
    rw [hs.ranges]
    exact List.forall_mem_map.mpr hs.spans
  have hlocals := compareRanges_eq_ok hspans hranges
  rw [hs.ranges] at hlocals
  refine ⟨records, (endAt bytes endOffset).centralOffset, endOffset, hs.entries.symm, hs.reads,
    hlocals, hoffset ▸ hs.directory, hisEnd, ?_, ?_, ?_, ?_, ?_, ?_⟩
  · have hsize : endOffset - (endAt bytes endOffset).centralOffset =
        (endAt bytes endOffset).centralSize := by omega
    exact EndRecord.ext hdisk hcentralDisk (hdiskEntries.trans hentries.symm) hentries.symm
      hsize.symm rfl
  · rw [hs.entries, List.map_map]
    exact hs.distinct
  · rw [hs.entries]
    exact List.forall_mem_map.mpr hs.safe
  · rw [hs.entries]
    exact List.forall_mem_map.mpr hs.ratio
  · rw [hentries]
    exact ⟨Nat.pos_of_ne_zero hpos, hcount⟩
  · rw [hs.entries, List.map_map]
    exact hs.uncompressed ▸ hs.limit

/-! ### Refusals -/

theorem contained_readMatchingLocal :
    Contained (readMatchingLocal bytes centralOffset central name) := by
  refine contained_bind (contained_header readLocal_eq readLocal_outside) fun _ _ => ?_
  refine contained_bind contained_failIf fun _ _ => ?_
  refine contained_bind contained_decodeUtf8 fun _ _ => ?_
  refine contained_bind contained_failIf fun _ _ => ?_
  refine contained_bind contained_validateZipExtra fun _ _ => ?_
  refine contained_bind contained_failIf fun _ _ => ?_
  exact contained_bind contained_failIf fun _ _ => contained_ok _

theorem contained_checkDeclared : Contained (checkDeclared s central) := by
  refine contained_bind contained_failIf fun _ _ => ?_
  refine contained_bind contained_failIf fun _ _ => ?_
  refine contained_bind contained_failIf fun _ _ => ?_
  refine contained_bind contained_failIf fun _ _ => ?_
  exact contained_bind contained_failIf fun _ _ => contained_failIf

theorem contained_readRecord :
    Contained (readRecord toLowerCase bytes centralOffset endOffset s) := by
  refine contained_bind (contained_header readCentral_eq readCentral_outside) fun _ _ => ?_
  refine contained_bind contained_failIf fun _ _ => ?_
  refine contained_bind contained_decodeUtf8 fun _ _ => ?_
  refine contained_bind contained_safeZipName fun _ _ => ?_
  refine contained_bind contained_validateZipExtra fun _ _ => ?_
  refine contained_bind contained_failIf fun _ _ => ?_
  refine contained_bind contained_checkDeclared fun _ _ => ?_
  exact contained_bind contained_readMatchingLocal fun _ _ => contained_ok _

theorem contained_readRecords :
    Contained (readRecords toLowerCase bytes centralOffset endOffset count s) := by
  induction count generalizing s with
  | zero => exact contained_ok _
  | succ count ih => exact contained_bind contained_readRecord fun _ _ => ih

/-- **Whatever the bytes**, they are refused or accepted. -/
theorem contained_zipEntries : Contained (zipEntries toLowerCase bytes) := by
  refine contained_bind contained_failIf fun _ hbytes => ?_
  rw [failIf_eq_ok, Nat.not_lt] at hbytes
  refine contained_bind (contained_findZipEnd hbytes) fun endOffset hend => ?_
  rw [readEnd_eq ((findZipEnd_eq_ok hbytes).mp hend).1.bounds.1, ok_bind]
  refine contained_bind contained_failIf fun _ _ => ?_
  refine contained_bind contained_readRecords fun _ _ => ?_
  refine contained_bind contained_failIf fun _ _ => ?_
  refine contained_bind ?_ fun _ _ => contained_ok _
  exact contained_bind contained_failIf fun _ _ => contained_failIf

end MailPortal.Documents
