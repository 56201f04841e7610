import MailPortal.Documents.ZipReading
import Mathlib.Tactic.IntervalCases

/-!
# Archives Written in the Obvious Way

An archive with stored files, whose local and central headers agree and have no extra fields, is
accepted and read as it was written. It must have a file, no name may begin with a byte order mark,
and no end record may seem to begin in the comment or in its length.

Main results:

* `zipEntries_archive` : an archive is read as it was written.
* `zip_containers` : what is accepted has one reading, and archives are accepted.
* `archives_not_read` : archives that are refused, or read otherwise.
-/

namespace MailPortal.Documents

open Bytes Failure Tiling

variable {localRest : List UInt8}

/-! ### Writing -/

/-- A file that is stored. -/
structure StoredFile where
  name : String
  flags : ℕ
  modified : ℕ
  crc : ℕ
  data : List UInt8

def StoredFile.encodedName (file : StoredFile) : List UInt8 := utf8Encode file.name

def localFields (file : StoredFile) : List (ℕ × ℕ) :=
  [(4, ZIP_LOCAL_SIGNATURE), (2, 20), (2, file.flags), (2, 0), (4, file.modified), (4, file.crc),
    (4, file.data.length), (4, file.data.length), (2, file.encodedName.length), (2, 0)]

def localRecord (file : StoredFile) : List UInt8 :=
  layout (localFields file) ++ (file.encodedName ++ file.data)

def centralFields (localOffset : ℕ) (file : StoredFile) : List (ℕ × ℕ) :=
  [(4, ZIP_CENTRAL_SIGNATURE), (2, 20), (2, 20), (2, file.flags), (2, 0), (4, file.modified),
    (4, file.crc), (4, file.data.length), (4, file.data.length), (2, file.encodedName.length),
    (2, 0), (2, 0), (2, 0), (2, 0), (4, 0), (4, localOffset)]

def centralRecord (localOffset : ℕ) (file : StoredFile) : List UInt8 :=
  layout (centralFields localOffset file) ++ file.encodedName

/-- The local records. -/
def localRecords (files : List StoredFile) : List UInt8 := files.flatMap localRecord

/-- The central records of files whose local records begin at the offset. -/
def centralRecords : ℕ → List StoredFile → List UInt8
  | _, [] => []
  | localOffset, file :: files =>
    centralRecord localOffset file ++ centralRecords (localOffset + (localRecord file).length) files

def endFields (files : List StoredFile) (comment : List UInt8) : List (ℕ × ℕ) :=
  [(4, ZIP_END_SIGNATURE), (2, 0), (2, 0), (2, files.length), (2, files.length),
    (4, (centralRecords 0 files).length), (4, (localRecords files).length), (2, comment.length)]

def endRecord (files : List StoredFile) (comment : List UInt8) : List UInt8 :=
  layout (endFields files comment) ++ comment

/-- The archive of the files. -/
def archive (files : List StoredFile) (comment : List UInt8) : List UInt8 :=
  localRecords files ++ (centralRecords 0 files ++ endRecord files comment)

/-- What is to be listed, of files whose local records begin at the offset. -/
def listed : ℕ → List StoredFile → List ZipEntry
  | _, [] => []
  | localOffset, file :: files =>
    ⟨file.name, 0, file.crc, file.data.length, file.data.length,
      localOffset + 30 + file.encodedName.length⟩ ::
      listed (localOffset + (localRecord file).length) files

/-- Where the local records are. -/
def localSpans : ℕ → List StoredFile → List (ℕ × ℕ)
  | _, [] => []
  | localOffset, file :: files =>
    (localOffset, localOffset + (localRecord file).length) ::
      localSpans (localOffset + (localRecord file).length) files

/-- A file that can be stored: its name is safe, and its numbers have their sizes. -/
structure StoredFile.Storable (file : StoredFile) : Prop where
  safe : SafeName file.name
  flags : file.flags < 2 ^ 16
  plain : file.flags &&& 0x0001 = 0 ∧ file.flags &&& 0x0008 = 0 ∧ file.flags &&& 0x0040 = 0
  modified : file.modified < 2 ^ 32
  crc : file.crc < 2 ^ 32

/-- The name does not begin with a byte order mark. -/
def StoredFile.Unmarked (file : StoredFile) : Prop := file.name.toList.head? ≠ some '\uFEFF'

/-- A text as it is decoded: without a byte order mark. -/
def dropMark (text : String) : String :=
  match text.toList with
  | '\uFEFF' :: cs => String.ofList cs
  | _ => text

def ZipEntry.decoded (entry : ZipEntry) : ZipEntry := { entry with name := dropMark entry.name }

/-- The files respect the limits. -/
structure Archivable (toLowerCase : String → String) (files : List StoredFile) : Prop where
  storable : ∀ file ∈ files, file.Storable
  distinct : (files.map fun file => toLowerCase file.name).Nodup
  count : files.length ≤ ZIP_MAX_ENTRIES
  total : (files.map (·.data.length)).sum ≤ ZIP_MAX_UNCOMPRESSED_BYTES

/-- The bytes contain the signature of an end record. -/
def HasEndSignature (data : List UInt8) : Prop :=
  ∃ offset, offset + 4 ≤ data.length ∧ uint32 data offset = ZIP_END_SIGNATURE

/-! ### Sizes -/

variable {file : StoredFile} {files : List StoredFile} {comment : List UInt8}

theorem length_localRecord (file : StoredFile) :
    (localRecord file).length = 30 + file.encodedName.length + file.data.length := by
  rw [localRecord, List.length_append, length_layout, List.length_append, Nat.add_assoc]
  rfl

theorem length_centralRecord (localOffset : ℕ) (file : StoredFile) :
    (centralRecord localOffset file).length = 46 + file.encodedName.length := by
  rw [centralRecord, List.length_append, length_layout]
  rfl

/-- A name takes four bytes for a character at most. -/
theorem StoredFile.Storable.length_encodedName (h : file.Storable) :
    file.encodedName.length ≤ 4096 := by
  have hbytes := length_utf8Encode_le file.name.toList
  rw [String.ofList_toList] at hbytes
  have hunits : file.name.toList.length ≤ codeUnits file.name := by
    rw [codeUnits]
    induction file.name.toList with
    | nil => exact Nat.zero_le _
    | cons c cs ih =>
      have hpos : 1 ≤ (utf16Units c).length := by
        rw [utf16Units]
        split <;> simp
      rw [List.flatMap_cons, List.length_append, List.length_cons]
      omega
  have hshort := h.safe.short
  rw [StoredFile.encodedName]
  omega

theorem length_localRecords (h : ∀ file ∈ files, file.Storable) :
    (localRecords files).length ≤ 4126 * files.length + (files.map (·.data.length)).sum := by
  induction files with
  | nil => exact Nat.zero_le _
  | cons file files ih =>
    obtain ⟨hfile, hfiles⟩ := List.forall_mem_cons.mp h
    have hname := hfile.length_encodedName
    have hrest := ih hfiles
    rw [localRecords] at hrest
    rw [localRecords, List.flatMap_cons, List.length_append, length_localRecord, List.length_cons,
      List.map_cons, List.sum_cons]
    omega

theorem length_centralRecords (localOffset : ℕ) (h : ∀ file ∈ files, file.Storable) :
    (centralRecords localOffset files).length ≤ 4142 * files.length := by
  induction files generalizing localOffset with
  | nil => exact Nat.zero_le _
  | cons file files ih =>
    obtain ⟨hfile, hfiles⟩ := List.forall_mem_cons.mp h
    have hname := hfile.length_encodedName
    have hrest := ih (localOffset + (localRecord file).length) hfiles
    rw [centralRecords, List.length_append, length_centralRecord, List.length_cons]
    omega

namespace Archivable

variable {toLowerCase : String → String} (h : Archivable toLowerCase files)

include h

theorem few : files.length < 1024 := by
  have hcount := h.count
  rw [ZIP_MAX_ENTRIES] at hcount
  omega

theorem directory_small : (centralRecords 0 files).length < 5 * 2 ^ 24 := by
  have hlength := length_centralRecords 0 h.storable
  have hfew := h.few
  omega

theorem locals_small : (localRecords files).length < 5 * 2 ^ 24 := by
  have hlength := length_localRecords h.storable
  have hfew := h.few
  have htotal := h.total
  rw [ZIP_MAX_UNCOMPRESSED_BYTES] at htotal
  omega

end Archivable

theorem localSpans_tiles (localOffset : ℕ) (files : List StoredFile) :
    Tiles localOffset (localOffset + (localRecords files).length)
      (localSpans localOffset files) := by
  induction files generalizing localOffset with
  | nil => rfl
  | cons file files ih =>
    have hrest := ih (localOffset + (localRecord file).length)
    rw [localRecords] at hrest
    refine ⟨rfl, Nat.le_add_right _ _, ?_⟩
    rwa [localRecords, List.flatMap_cons, List.length_append, ← Nat.add_assoc]

/-! ### Reading a record -/

variable {bytes rest : List UInt8} {offset localOffset : ℕ}

/-- The fields of a local record are read as they were written. -/
theorem localAt_record (hfile : file.Storable) (hdata : file.data.length < 2 ^ 32)
    (h : At bytes offset (localRecord file ++ rest)) :
    uint32 bytes offset = ZIP_LOCAL_SIGNATURE ∧
      localAt bytes offset = ⟨file.flags, 0, file.crc, file.data.length, file.data.length,
        file.encodedName.length, 0⟩ ∧
      At bytes (offset + 30) (file.encodedName ++ (file.data ++ rest)) := by
  have hname := hfile.length_encodedName
  rw [localRecord, List.append_assoc, List.append_assoc] at h
  have hwidths : (localFields file).map Prod.fst = [4, 2, 2, 2, 4, 4, 4, 4, 2, 2] := rfl
  refine ⟨h.field32 hwidths 0 rfl rfl (by decide), ?_, ?_⟩
  · have hflags : uint16 bytes (offset + 6) = file.flags := h.field16 hwidths 2 rfl rfl hfile.flags
    have hmethod : uint16 bytes (offset + 8) = 0 := h.field16 hwidths 3 rfl rfl (by decide)
    have hcrc : uint32 bytes (offset + 14) = file.crc := h.field32 hwidths 5 rfl rfl hfile.crc
    have hcompressed : uint32 bytes (offset + 18) = file.data.length :=
      h.field32 hwidths 6 rfl rfl hdata
    have hsize : uint32 bytes (offset + 22) = file.data.length := h.field32 hwidths 7 rfl rfl hdata
    have hlength : uint16 bytes (offset + 26) = file.encodedName.length :=
      h.field16 hwidths 8 rfl rfl (by omega)
    have hextra : uint16 bytes (offset + 28) = 0 := h.field16 hwidths 9 rfl rfl (by decide)
    rw [localAt, hflags, hmethod, hcrc, hcompressed, hsize, hlength, hextra]
  · have hat := h.skip
    rwa [length_layout] at hat

/-- The fields of a central record are read as they were written. -/
theorem centralAt_record (hfile : file.Storable) (hdata : file.data.length < 2 ^ 32)
    (hoffset : localOffset < 2 ^ 32)
    (h : At bytes offset (centralRecord localOffset file ++ rest)) :
    uint32 bytes offset = ZIP_CENTRAL_SIGNATURE ∧
      centralAt bytes offset = ⟨file.flags, 0, file.crc, file.data.length, file.data.length,
        file.encodedName.length, 0, 0, localOffset⟩ ∧
      At bytes (offset + 46) (file.encodedName ++ rest) := by
  have hname := hfile.length_encodedName
  rw [centralRecord, List.append_assoc] at h
  have hwidths : (centralFields localOffset file).map Prod.fst =
      [4, 2, 2, 2, 2, 4, 4, 4, 4, 2, 2, 2, 2, 2, 4, 4] := rfl
  refine ⟨h.field32 hwidths 0 rfl rfl (by decide), ?_, ?_⟩
  · have hflags : uint16 bytes (offset + 8) = file.flags := h.field16 hwidths 3 rfl rfl hfile.flags
    have hmethod : uint16 bytes (offset + 10) = 0 := h.field16 hwidths 4 rfl rfl (by decide)
    have hcrc : uint32 bytes (offset + 16) = file.crc := h.field32 hwidths 6 rfl rfl hfile.crc
    have hcompressed : uint32 bytes (offset + 20) = file.data.length :=
      h.field32 hwidths 7 rfl rfl hdata
    have hsize : uint32 bytes (offset + 24) = file.data.length := h.field32 hwidths 8 rfl rfl hdata
    have hlength : uint16 bytes (offset + 28) = file.encodedName.length :=
      h.field16 hwidths 9 rfl rfl (by omega)
    have hextra : uint16 bytes (offset + 30) = 0 := h.field16 hwidths 10 rfl rfl (by decide)
    have hcomment : uint16 bytes (offset + 32) = 0 := h.field16 hwidths 11 rfl rfl (by decide)
    have hlocal : uint32 bytes (offset + 42) = localOffset := h.field32 hwidths 15 rfl rfl hoffset
    rw [centralAt, hflags, hmethod, hcrc, hcompressed, hsize, hlength, hextra, hcomment, hlocal]
  · have hat := h.skip
    rwa [length_layout] at hat

theorem decode_name (file : StoredFile) :
    decodeUtf8 file.encodedName = .ok (dropMark file.name) := by
  have hdata : (⟨file.encodedName.toArray⟩ : ByteArray) = file.name.toByteArray := by
    rw [StoredFile.encodedName, utf8Encode, Array.toArray_toList, String.toUTF8_eq_toByteArray]
  have hbytes : String.fromUTF8? ⟨file.encodedName.toArray⟩ = some file.name := by
    rw [hdata, String.fromUTF8?, dif_pos file.name.isValidUTF8]
    rfl
  rw [decodeUtf8_eq_ok, utf8Decode, hbytes]
  rfl

/-- There are no extra fields. -/
theorem validateZipExtra_none (bytes : List UInt8) (offset : ℕ) :
    validateZipExtra (slice bytes offset (offset + 0)) = .ok () := by
  rw [Nat.add_zero, slice_self]
  rfl

/-- The local record of a file is found to agree. -/
theorem readMatchingLocal_record (hfile : file.Storable) (hdata : file.data.length < 2 ^ 32)
    {centralOffset : ℕ}
    (h : At bytes localOffset (localRecord file ++ rest))
    (hroom : localOffset + (localRecord file).length ≤ centralOffset) :
    readMatchingLocal bytes centralOffset ⟨file.flags, 0, file.crc, file.data.length,
      file.data.length, file.encodedName.length, 0, 0, localOffset⟩ (dropMark file.name) =
        .ok (localOffset + 30 + file.encodedName.length) := by
  obtain ⟨hsignature, hheader, hname⟩ := localAt_record hfile hdata h
  have hlength := h.length
  rw [List.length_append, length_localRecord] at hlength
  rw [length_localRecord] at hroom
  have hread : readLocal bytes localOffset = .ok ⟨file.flags, 0, file.crc, file.data.length,
      file.data.length, file.encodedName.length, 0⟩ :=
    (header_eq_ok readLocal_eq readLocal_outside).mpr ⟨by omega, hsignature, hheader⟩
  have hslice := hname.slice
  rw [readMatchingLocal, hread, ok_bind]
  dsimp only
  rw [failIf_bind (by omega), hslice, decode_name file, ok_bind, failIf_bind (by simp),
    validateZipExtra_none, ok_bind, failIf_bind (by simp), failIf_bind (by omega)]
  rfl

/-- What the loop has before a file. -/
structure Before (toLowerCase : String → String) (s : ZipState) (files : List StoredFile) :
    Prop where
  names : ∀ file ∈ files, toLowerCase (dropMark file.name) ∉ s.names
  equal : s.totalCompressed = s.totalUncompressed
  total : s.totalUncompressed + (files.map (·.data.length)).sum ≤ ZIP_MAX_UNCOMPRESSED_BYTES

/-- The state after a file. -/
def afterFile (toLowerCase : String → String) (localOffset : ℕ) (file : StoredFile) (s : ZipState) :
    ZipState where
  offset := s.offset + (centralRecord localOffset file).length
  entries := s.entries ++ [⟨dropMark file.name, 0, file.crc, file.data.length, file.data.length,
    localOffset + 30 + file.encodedName.length⟩]
  names := toLowerCase (dropMark file.name) :: s.names
  ranges := s.ranges ++ [(localOffset, localOffset + (localRecord file).length)]
  totalCompressed := s.totalCompressed + file.data.length
  totalUncompressed := s.totalUncompressed + file.data.length

variable {toLowerCase : String → String} {centralOffset endOffset : ℕ} {s : ZipState}

theorem checkDeclared_record (hfile : file.Storable)
    (hbefore : Before toLowerCase s (file :: files)) :
    checkDeclared s ⟨file.flags, 0, file.crc, file.data.length, file.data.length,
      file.encodedName.length, 0, 0, localOffset⟩ = .ok () := by
  have htotal := hbefore.total
  have hequal := hbefore.equal
  rw [List.map_cons, List.sum_cons] at htotal
  rw [checkDeclared]
  dsimp only
  rw [failIf_bind (by simp only [hfile.plain.1, hfile.plain.2.2]; simp),
    failIf_bind (by simp [hfile.plain.2.1]), failIf_bind (by simp), failIf_bind (by simp),
    failIf_bind (by rw [ ZIP_MAX_RATIO]; omega)]
  exact failIf_eq_ok.mpr (by rw [ ZIP_MAX_RATIO]; omega)

/-- **One pass** reads a file as it was written. -/
theorem readRecord_file (hfile : file.Storable) (hsafe : SafeName (dropMark file.name))
    (hbefore : Before toLowerCase s (file :: files)) (hoffset : localOffset < 2 ^ 32)
    (hcentral : At bytes s.offset (centralRecord localOffset file ++ rest))
    (hlocal : At bytes localOffset (localRecord file ++ localRest))
    (hcentralRoom : s.offset + (centralRecord localOffset file).length ≤ endOffset)
    (hlocalRoom : localOffset + (localRecord file).length ≤ centralOffset) :
    readRecord toLowerCase bytes centralOffset endOffset s =
      .ok (afterFile toLowerCase localOffset file s) := by
  have hdata : file.data.length < 2 ^ 32 := by
    have htotal := hbefore.total
    rw [List.map_cons, List.sum_cons, ZIP_MAX_UNCOMPRESSED_BYTES] at htotal
    omega
  obtain ⟨hsignature, hfields, hname⟩ := centralAt_record hfile hdata hoffset hcentral
  have hlength := hcentral.length
  rw [List.length_append, length_centralRecord] at hlength
  rw [length_centralRecord] at hcentralRoom
  have hread : readCentral bytes s.offset = .ok ⟨file.flags, 0, file.crc, file.data.length,
      file.data.length, file.encodedName.length, 0, 0, localOffset⟩ :=
    (header_eq_ok readCentral_eq readCentral_outside).mpr ⟨by omega, hsignature, hfields⟩
  have hslice := hname.slice
  have haccepted : safeZipName (dropMark file.name) = .ok (dropMark file.name) :=
    safeZipName_eq_ok.mpr ⟨hsafe, rfl⟩
  have hnew := hbefore.names file List.mem_cons_self
  rw [readRecord, hread, ok_bind]
  dsimp only
  rw [failIf_bind (by omega), hslice, decode_name file, ok_bind, haccepted, ok_bind,
    validateZipExtra_none, ok_bind, failIf_bind hnew, checkDeclared_record hfile hbefore,
    ok_bind, readMatchingLocal_record hfile hdata hlocal hlocalRoom, ok_bind]
  rw [afterFile, length_centralRecord, length_localRecord]
  simp only [Nat.add_zero, Nat.add_assoc]
  rfl

/-- **The loop** reads the files as they were written. -/
theorem readRecords_files (hfiles : ∀ file ∈ files, file.Storable)
    (hsafe : ∀ file ∈ files, SafeName (dropMark file.name))
    (hdistinct : (files.map fun file => toLowerCase (dropMark file.name)).Nodup)
    (hbefore : Before toLowerCase s files) (hsize : centralOffset < 2 ^ 32)
    (hcentral : At bytes s.offset (centralRecords localOffset files ++ rest))
    (hlocal : At bytes localOffset (localRecords files ++ localRest))
    (hcentralRoom : s.offset + (centralRecords localOffset files).length ≤ endOffset)
    (hlocalRoom : localOffset + (localRecords files).length ≤ centralOffset) :
    ∃ s', readRecords toLowerCase bytes centralOffset endOffset files.length s = .ok s' ∧
      s'.offset = s.offset + (centralRecords localOffset files).length ∧
      s'.entries = s.entries ++ (listed localOffset files).map ZipEntry.decoded ∧
      s'.ranges = s.ranges ++ localSpans localOffset files := by
  induction files generalizing s localOffset with
  | nil => exact ⟨s, rfl, rfl, (List.append_nil _).symm, (List.append_nil _).symm⟩
  | cons file files ih =>
    obtain ⟨hfile, hfiles⟩ := List.forall_mem_cons.mp hfiles
    obtain ⟨hname, hsafe⟩ := List.forall_mem_cons.mp hsafe
    obtain ⟨hnew, hdistinct⟩ := List.nodup_cons.mp hdistinct
    rw [centralRecords, List.append_assoc] at hcentral
    rw [localRecords, List.flatMap_cons, List.append_assoc] at hlocal
    rw [centralRecords, List.length_append] at hcentralRoom
    rw [localRecords, List.flatMap_cons, List.length_append] at hlocalRoom
    have hfirst := readRecord_file hfile hname hbefore (by omega) hcentral hlocal
      (show s.offset + (centralRecord localOffset file).length ≤ endOffset by omega)
      (show localOffset + (localRecord file).length ≤ centralOffset by omega)
    have hnext : Before toLowerCase (afterFile toLowerCase localOffset file s) files := by
      refine ⟨fun other hmem => ?_, ?_, ?_⟩
      · refine List.not_mem_cons_of_ne_of_not_mem (fun heq => hnew ?_)
          (hbefore.names other (List.mem_cons_of_mem _ hmem))
        exact List.mem_map.mpr ⟨other, hmem, heq⟩
      · exact congrArg (· + file.data.length) hbefore.equal
      · have htotal := hbefore.total
        rw [List.map_cons, List.sum_cons, ← Nat.add_assoc] at htotal
        exact htotal
    obtain ⟨s', hrest, hoffset, hentries, hranges⟩ := ih hfiles hsafe hdistinct hnext hcentral.skip
      hlocal.skip (by rw [afterFile]; dsimp only; omega) (by rw [localRecords]; omega)
    refine ⟨s', ?_, ?_, ?_, ?_⟩
    · rw [List.length_cons, readRecords, hfirst, ok_bind, hrest]
    · rw [hoffset, centralRecords, List.length_append, ← Nat.add_assoc]
      rfl
    · rw [hentries, listed, afterFile, List.append_assoc]
      rfl
    · rw [hranges, localSpans, afterFile, List.append_assoc]
      rfl

/-! ### The end record -/

/-- The bytes of a signature. -/
theorem drop_of_signature {data : List UInt8} (hroom : offset + 4 ≤ data.length)
    (h : uint32 data offset = ZIP_END_SIGNATURE) :
    ∃ tail, data.drop offset = 0x50 :: 0x4b :: 0x05 :: 0x06 :: tail := by
  obtain ⟨rest, hat⟩ := exists_at (Nat.le_of_add_right_le hroom)
  obtain ⟨xs, rest, rfl, hxs⟩ := hat.exists_front hroom
  match xs, hxs with
  | [a, b, c, d], _ =>
    have hslice : slice data offset (offset + 4) = [a, b, c, d] := hat.slice
    rw [uint32, hslice, ZIP_END_SIGNATURE] at h
    simp only [littleEndian] at h
    have ha := a.toNat_lt
    have hb := b.toNat_lt
    have hc := c.toNat_lt
    have hd := d.toNat_lt
    have hbyte : ∀ {x : UInt8} {n : ℕ}, x.toNat = n → x = UInt8.ofNat n := by
      rintro x _ rfl
      exact UInt8.ofNat_toNat.symm
    refine ⟨rest, ?_⟩
    rw [hat.drop, hbyte (show a.toNat = 0x50 by omega), hbyte (show b.toNat = 0x4b by omega),
      hbyte (show c.toNat = 0x05 by omega), hbyte (show d.toNat = 0x06 by omega)]
    rfl

/-- A signature within the end record would need a larger archive. -/
theorem no_signature_within (hcount : files.length < 1024)
    (hcentralSize : (centralRecords 0 files).length < 5 * 2 ^ 24)
    (hlocalSize : (localRecords files).length < 5 * 2 ^ 24) {k : ℕ} (hk : 0 < k) (hlt : k < 20)
    {tail : List UInt8} :
    (endRecord files comment).drop k ≠ 0x50 :: 0x4b :: 0x05 :: 0x06 :: tail := by
  have hbyte : ∀ {n : ℕ} {x : UInt8}, n < x.toNat → UInt8.ofNat n ≠ x := by
    rintro n x hn rfl
    rw [toNat_ofNat] at hn
    exact absurd (Nat.mod_le n 256) (by omega)
  have hn : ∀ x : UInt8, 3 < x.toNat → UInt8.ofNat (files.length / 256) ≠ x :=
    fun x hx => hbyte (by omega)
  have hc : ∀ x : UInt8, 4 < x.toNat →
      UInt8.ofNat ((centralRecords 0 files).length / 256 / 256 / 256) ≠ x :=
    fun x hx => hbyte (by omega)
  have hl : ∀ x : UInt8, 4 < x.toNat →
      UInt8.ofNat ((localRecords files).length / 256 / 256 / 256) ≠ x :=
    fun x hx => hbyte (by omega)
  intro hdrop
  have hrecord : endRecord files comment = 0x50 :: 0x4b :: 0x05 :: 0x06 :: 0 :: 0 :: 0 :: 0 ::
      UInt8.ofNat files.length :: UInt8.ofNat (files.length / 256) ::
      UInt8.ofNat files.length :: UInt8.ofNat (files.length / 256) ::
      (spell 4 (centralRecords 0 files).length ++ (spell 4 (localRecords files).length ++
        (spell 2 comment.length ++ comment))) := by
    rfl
  rw [hrecord] at hdrop
  simp only [spell, List.cons_append, List.nil_append] at hdrop
  interval_cases k <;> simp only [List.drop_succ_cons, List.drop_zero, List.cons.injEq] at hdrop
  iterate 7 exact absurd hdrop.1 (by decide)
  · exact hn _ (by decide) hdrop.2.1
  · exact hn _ (by decide) hdrop.1
  · exact hn _ (by decide) hdrop.2.1
  · exact hn _ (by decide) hdrop.1
  · exact hc _ (by decide) hdrop.2.2.2.1
  · exact hc _ (by decide) hdrop.2.2.1
  · exact hc _ (by decide) hdrop.2.1
  · exact hc _ (by decide) hdrop.1
  · exact hl _ (by decide) hdrop.2.2.2.1
  · exact hl _ (by decide) hdrop.2.2.1
  · exact hl _ (by decide) hdrop.2.1
  · exact hl _ (by decide) hdrop.1

/-- Where the end record is. -/
def endOffsetOf (files : List StoredFile) : ℕ :=
  (localRecords files).length + (centralRecords 0 files).length

theorem at_endRecord (files : List StoredFile) (comment : List UInt8) :
    At (archive files comment) (endOffsetOf files) (endRecord files comment) := by
  have hat := at_append (localRecords files) (centralRecords 0 files ++ endRecord files comment)
  exact hat.skip

/-- The comment with its length is at the end of the end record. -/
theorem at_comment (files : List StoredFile) (comment : List UInt8) :
    At (endRecord files comment) 20 (spell 2 comment.length ++ comment) := by
  have hlayout := at_append (layout ((endFields files comment).take 7))
    (spell 2 comment.length ++ comment)
  rwa [length_layout] at hlayout

/-- The end record is one. -/
theorem isEnd_archive (files : List StoredFile) (hcomment : comment.length < 2 ^ 16) :
    IsEnd (archive files comment) (endOffsetOf files) := by
  have hat := at_endRecord files comment
  have hwidths : (endFields files comment).map Prod.fst = [4, 2, 2, 2, 2, 4, 4, 2] := rfl
  have hlength := hat.length
  rw [endRecord, List.length_append, length_layout] at hlength
  refine ⟨hat.field32 hwidths 0 rfl rfl (by decide), ?_⟩
  have hread : uint16 (archive files comment) (endOffsetOf files + 20) = comment.length :=
    hat.field16 hwidths 7 rfl rfl hcomment
  rw [hread, Nat.add_assoc]
  exact hlength

/-- Behind the end record there is a signature only if it begins in the comment or its length. -/
theorem signature_behind (hcount : files.length < 1024)
    (hcentralSize : (centralRecords 0 files).length < 5 * 2 ^ 24)
    (hlocalSize : (localRecords files).length < 5 * 2 ^ 24) {other : ℕ}
    (hbehind : endOffsetOf files < other) (hend : IsEnd (archive files comment) other) :
    ∃ k, other = endOffsetOf files + 20 + k ∧ k + 4 ≤ (spell 2 comment.length ++ comment).length ∧
      uint32 (spell 2 comment.length ++ comment) k = ZIP_END_SIGNATURE := by
  have hat := at_endRecord files comment
  have hlength := hat.length
  have hbounds := hend.bounds.1
  obtain ⟨j, rfl⟩ := Nat.exists_eq_add_of_lt hbehind
  have hsignature := hend.1
  rw [Nat.add_assoc, hat.uint32_add] at hsignature
  by_cases hlt : j + 1 < 20
  · obtain ⟨tail, hdrop⟩ := drop_of_signature (by omega) hsignature
    exact absurd hdrop (no_signature_within hcount hcentralSize hlocalSize (Nat.succ_pos j) hlt)
  · obtain ⟨k, hk⟩ := Nat.exists_eq_add_of_le (Nat.not_lt.mp hlt)
    have hcomment := at_comment files comment
    have hroom := hcomment.length
    rw [hk, hcomment.uint32_add] at hsignature
    exact ⟨k, by omega, by omega, hsignature⟩

/-- The ranges of the local records are in order. -/
theorem compareRanges_spans (files : List StoredFile) (hne : files ≠ []) :
    compareRanges (localSpans 0 files) (localRecords files).length = .ok () := by
  have htiles := localSpans_tiles 0 files
  rw [Nat.zero_add] at htiles
  have hspans : localSpans 0 files ≠ [] := by
    cases files with
    | nil => exact absurd rfl hne
    | cons file files => exact List.cons_ne_nil _ _
  have hsorted : (localSpans 0 files).mergeSort (fun left right => left.1 ≤ right.1) =
      localSpans 0 files :=
    List.mergeSort_of_pairwise (htiles.sorted.imp fun hle => decide_eq_true hle)
  rw [compareRanges, hsorted, htiles.head? hspans, htiles.getLast? hspans, htiles.touches,
    failIf_bind (by simp)]
  rfl

/-- The end record is found, if none seems to begin behind it. -/
theorem findZipEnd_archive (h : Archivable toLowerCase files) (hcomment : comment.length < 2 ^ 16)
    (hsignature : ¬HasEndSignature (spell 2 comment.length ++ comment)) :
    findZipEnd (archive files comment) = .ok (endOffsetOf files) := by
  have hisEnd := isEnd_archive files hcomment
  have hbounds := hisEnd.bounds.1
  refine (findZipEnd_eq_ok (by omega)).mpr ⟨hisEnd, fun other hbehind hother => ?_⟩
  obtain ⟨k, -, hroom, hfound⟩ :=
    signature_behind h.few h.directory_small h.locals_small hbehind hother
  exact hsignature ⟨k, hroom, hfound⟩

/-- The end record says where everything is. -/
theorem endAt_archive (comment : List UInt8) (h : Archivable toLowerCase files) :
    endAt (archive files comment) (endOffsetOf files) = ⟨0, 0, files.length, files.length,
      (centralRecords 0 files).length, (localRecords files).length⟩ := by
  have hfew := h.few
  have hdirectory := h.directory_small
  have hlocals := h.locals_small
  have hat := at_endRecord files comment
  have hwidths : (endFields files comment).map Prod.fst = [4, 2, 2, 2, 2, 4, 4, 2] := rfl
  have hdisk := hat.field16 hwidths 1 rfl rfl (by decide)
  have hcentralDisk := hat.field16 hwidths 2 rfl rfl (by decide)
  have hdiskEntries := hat.field16 hwidths 3 rfl rfl (by omega)
  have htotalEntries := hat.field16 hwidths 4 rfl rfl (by omega)
  have hsize := hat.field32 hwidths 5 rfl rfl (by omega)
  have hoffset := hat.field32 hwidths 6 rfl rfl (by omega)
  exact EndRecord.ext hdisk hcentralDisk hdiskEntries htotalEntries hsize hoffset

/-- An archive is read as it was written, but for the byte order marks. -/
theorem zipEntries_decoded (h : Archivable toLowerCase files)
    (hsafe : ∀ file ∈ files, SafeName (dropMark file.name))
    (hdistinct : (files.map fun file => toLowerCase (dropMark file.name)).Nodup) (hne : files ≠ [])
    (hcomment : comment.length < 2 ^ 16)
    (hsignature : ¬HasEndSignature (spell 2 comment.length ++ comment)) :
    zipEntries toLowerCase (archive files comment) =
      .ok ((listed 0 files).map ZipEntry.decoded) := by
  have hcount := h.count
  have hdirectory := h.directory_small
  have hlocals := h.locals_small
  rw [ZIP_MAX_ENTRIES] at hcount
  have hbounds := (isEnd_archive files hcomment).bounds.1
  have hbefore : Before toLowerCase ⟨(localRecords files).length, [], [], [], 0, 0⟩ files :=
    ⟨fun _ _ => List.not_mem_nil, rfl, by rw [Nat.zero_add]; exact h.total⟩
  have hcentral : At (archive files comment) (localRecords files).length
      (centralRecords 0 files ++ endRecord files comment) := at_append _ _
  have hlocal : At (archive files comment) 0
      (localRecords files ++ (centralRecords 0 files ++ endRecord files comment)) := at_zero _
  have hoffset : (localRecords files).length < 2 ^ 32 := by omega
  obtain ⟨s', hread, hend, hentries, hranges⟩ := readRecords_files h.storable hsafe hdistinct
    hbefore hoffset hcentral hlocal (le_refl (endOffsetOf files)) (Nat.zero_add _).le
  have hend : s'.offset = endOffsetOf files := hend
  have hpos := List.length_pos_of_ne_nil hne
  rw [zipEntries, failIf_bind (by omega), findZipEnd_archive h hcomment hsignature, ok_bind,
    readEnd_eq hbounds, ok_bind, endAt_archive comment h]
  dsimp only
  rw [failIf_bind (by rw [ZIP_MAX_ENTRIES, endOffsetOf]; omega), hread, ok_bind,
    failIf_bind (not_not_intro hend), hranges, List.nil_append,
    compareRanges_spans files hne, ok_bind, hentries]
  rfl

theorem dropMark_of_unmarked {text : String} (h : text.toList.head? ≠ some '\uFEFF') :
    dropMark text = text := by
  unfold dropMark
  split
  · rename_i cs hcs
    rw [hcs] at h
    exact absurd rfl h
  · rfl

theorem listed_decoded (localOffset : ℕ) (hmarks : ∀ file ∈ files, file.Unmarked) :
    (listed localOffset files).map ZipEntry.decoded = listed localOffset files := by
  induction files generalizing localOffset with
  | nil => rfl
  | cons file files ih =>
    obtain ⟨hmark, hmarks⟩ := List.forall_mem_cons.mp hmarks
    rw [listed, List.map_cons, ih _ hmarks, ZipEntry.decoded, dropMark_of_unmarked hmark]

/-- **An archive is read as it was written.** -/
theorem zipEntries_archive (h : Archivable toLowerCase files)
    (hmarks : ∀ file ∈ files, file.Unmarked) (hne : files ≠ []) (hcomment : comment.length < 2 ^ 16)
    (hsignature : ¬HasEndSignature (spell 2 comment.length ++ comment)) :
    zipEntries toLowerCase (archive files comment) = .ok (listed 0 files) := by
  have hnames : ∀ file ∈ files, dropMark file.name = file.name :=
    fun file hmem => dropMark_of_unmarked (hmarks file hmem)
  have hdistinct : (files.map fun file => toLowerCase (dropMark file.name)) =
      files.map fun file => toLowerCase file.name :=
    List.map_congr_left fun file hmem => congrArg toLowerCase (hnames file hmem)
  have hsafe : ∀ file ∈ files, SafeName (dropMark file.name) := by
    intro file hmem
    rw [hnames file hmem]
    exact (h.storable file hmem).safe
  rw [zipEntries_decoded h hsafe (hdistinct.symm ▸ h.distinct) hne hcomment hsignature,
    listed_decoded 0 hmarks]

/-! ### The results -/

/-- **An accepted container has one reading, and archives are accepted.** Whatever the bytes, they
are refused or have the reading that is listed. An archive is read as it was written, if it has a
file, no name begins with a byte order mark, and the signature of an end record is not in its
comment, nor begins in the length of the comment. -/
theorem zip_containers (toLowerCase : String → String) :
    (∀ bytes, (∃ entries records centralOffset endOffset,
      zipEntries toLowerCase bytes = .ok entries ∧
        ZipReading toLowerCase bytes entries records centralOffset endOffset) ∨
      ∃ code, zipEntries toLowerCase bytes = failure code) ∧
    ∀ files comment, Archivable toLowerCase files → (∀ file ∈ files, file.Unmarked) → files ≠ [] →
      comment.length < 2 ^ 16 → ¬HasEndSignature (spell 2 comment.length ++ comment) →
      zipEntries toLowerCase (archive files comment) = .ok (listed 0 files) := by
  refine ⟨fun bytes => ?_, fun files comment => zipEntries_archive⟩
  cases hread : zipEntries toLowerCase bytes with
  | ok entries =>
    obtain ⟨records, centralOffset, endOffset, hreading⟩ := zipEntries_reads hread
    exact Or.inl ⟨entries, records, centralOffset, endOffset, rfl, hreading⟩
  | error e =>
    obtain ⟨code, rfl⟩ := contained_zipEntries e hread
    exact Or.inr ⟨code, rfl⟩

/-! ### Archives that are not read as they were written -/

def plainFile : StoredFile := ⟨"a", 0, 0, 0, []⟩

/-- A file whose name begins with a byte order mark. -/
def markedFile : StoredFile := ⟨"\uFEFFa", 0, 0, 0, []⟩

/-- A comment of 19280 bytes: with its length it begins like an end record without files. -/
def straddlingComment : List UInt8 :=
  [0x05, 0x06] ++ (List.replicate 16 0 ++ ([0x3c, 0x4b] ++ List.replicate 19260 0))

theorem safe_plain : SafeName "a" :=
  ⟨by decide, by decide, by decide, by decide, by decide, by decide⟩

theorem archivable_plain : Archivable id [plainFile] where
  storable := List.forall_mem_singleton.mpr
    ⟨safe_plain, by decide, by decide, by decide, by decide⟩
  distinct := List.nodup_singleton _
  count := by decide
  total := by decide

theorem archivable_marked : Archivable id [markedFile] where
  storable := List.forall_mem_singleton.mpr
    ⟨⟨by decide, by decide, by decide, by decide, by decide, by decide⟩, by decide, by decide,
      by decide, by decide⟩
  distinct := List.nodup_singleton _
  count := by decide
  total := by decide

theorem length_straddling : straddlingComment.length = 19280 := by
  rw [straddlingComment, List.length_append, List.length_append, List.length_append,
    List.length_replicate, List.length_replicate]
  rfl

theorem not_mem_straddling : (0x50 : UInt8) ∉ straddlingComment := by
  intro hmem
  rcases List.mem_append.mp hmem with hmem | hmem
  · exact absurd hmem (by decide)
  rcases List.mem_append.mp hmem with hmem | hmem
  · exact absurd (List.eq_of_mem_replicate hmem) (by decide)
  rcases List.mem_append.mp hmem with hmem | hmem
  · exact absurd hmem (by decide)
  · exact absurd (List.eq_of_mem_replicate hmem) (by decide)

theorem not_signature_straddling : ¬HasEndSignature straddlingComment := by
  rintro ⟨offset, hroom, hsignature⟩
  obtain ⟨tail, hdrop⟩ := drop_of_signature hroom hsignature
  have hmem : (0x50 : UInt8) ∈ straddlingComment.drop offset := by
    rw [hdrop]
    exact List.mem_cons_self
  exact not_mem_straddling (List.mem_of_mem_drop hmem)

/-- What is at the length of the comment. -/
theorem straddling_eq : spell 2 straddlingComment.length ++ straddlingComment =
    [0x50, 0x4b, 0x05, 0x06] ++
    (List.replicate 16 0 ++ ([0x3c, 0x4b] ++ List.replicate 19260 0)) := by
  rw [length_straddling, straddlingComment, ← List.append_assoc]
  rfl

/-- The end record that seems to begin in the length of the comment is found. -/
theorem findZipEnd_straddling : findZipEnd (archive [plainFile] straddlingComment) =
    .ok (endOffsetOf [plainFile] + 20) := by
  have hcomment := at_comment [plainFile] straddlingComment
  have hat := (at_endRecord [plainFile] straddlingComment).trans hcomment
  have hlength := hat.length
  rw [List.length_append, length_spell, length_straddling] at hlength
  rw [straddling_eq] at hat
  have hisEnd : IsEnd (archive [plainFile] straddlingComment) (endOffsetOf [plainFile] + 20) := by
    have hzeros := hat.skip.skip
    rw [List.length_replicate] at hzeros
    have hsize : uint16 (archive [plainFile] straddlingComment)
        (endOffsetOf [plainFile] + 20 + 20) = 19260 := hzeros.uint16_front rfl
    refine ⟨hat.uint32_front rfl, ?_⟩
    clear hat hzeros
    rw [hsize, ← hlength]
  refine (findZipEnd_eq_ok (by omega)).mpr ⟨hisEnd, fun other hbehind hother => ?_⟩
  obtain ⟨k, rfl, hroom, hsignature⟩ := signature_behind (by decide) (by decide) (by decide)
    (show endOffsetOf [plainFile] < other by omega) hother
  obtain ⟨tail, hdrop⟩ := drop_of_signature hroom hsignature
  obtain ⟨j, rfl⟩ := Nat.exists_eq_add_of_lt (show 0 < k by omega)
  -- Behind the length of the comment there is no first byte of a signature.
  have hmem : (0x50 : UInt8) ∈ (0x4b :: straddlingComment).drop j := by
    have hcons : spell 2 straddlingComment.length ++ straddlingComment =
        0x50 :: 0x4b :: straddlingComment := by
      rw [length_straddling, show spell 2 19280 = [0x50, 0x4b] by decide, List.cons_append,
        List.cons_append, List.nil_append]
    rw [hcons, Nat.zero_add, List.drop_succ_cons] at hdrop
    rw [hdrop]
    exact List.mem_cons_self
  rcases List.mem_cons.mp (List.mem_of_mem_drop hmem) with heq | hmem
  · exact absurd heq (by decide)
  · exact not_mem_straddling hmem

/-- That end record has no files. -/
theorem endAt_straddling :
    (endAt (archive [plainFile] straddlingComment) (endOffsetOf [plainFile] + 20)).totalEntries =
      0 := by
  have hcomment := at_comment [plainFile] straddlingComment
  have hat := (at_endRecord [plainFile] straddlingComment).trans hcomment
  rw [straddling_eq] at hat
  have hzeros := hat.skip
  rw [show List.replicate 16 (0 : UInt8) = List.replicate 6 0 ++ ([0, 0] ++ List.replicate 8 0)
    from rfl, List.append_assoc, List.append_assoc] at hzeros
  exact hzeros.skip.uint16_front rfl

/-- **Archives that are refused or read otherwise**: one without files, one with a marked name, and
one with a comment that does not have the signature, but whose length completes it. -/
theorem archives_not_read :
    (Archivable id [] ∧ zipEntries id (archive [] []) = failure .invalid_container) ∧
    (Archivable id [markedFile] ∧
      zipEntries id (archive [markedFile] []) ≠ .ok (listed 0 [markedFile])) ∧
    (Archivable id [plainFile] ∧ ¬HasEndSignature straddlingComment ∧
      zipEntries id (archive [plainFile] straddlingComment) = failure .invalid_container) := by
  refine ⟨⟨⟨List.forall_mem_nil _, List.nodup_nil, by decide, by decide⟩, by decide⟩,
    ⟨archivable_marked, ?_⟩, archivable_plain, not_signature_straddling, ?_⟩
  · have hsafe : ∀ file ∈ [markedFile], SafeName (dropMark file.name) :=
      List.forall_mem_singleton.mpr safe_plain
    have hsignature : ¬HasEndSignature (spell 2 0 ++ []) := by
      rintro ⟨offset, hroom, -⟩
      exact absurd hroom (by simp [spell])
    rw [zipEntries_decoded archivable_marked hsafe (List.nodup_singleton _) (List.cons_ne_nil _ _)
      (by decide) hsignature]
    exact fun heq => absurd (Except.ok.inj heq) (by decide)
  · have hlength := (at_comment [plainFile] straddlingComment).length
    have hbounds := (at_endRecord [plainFile] straddlingComment).length
    rw [List.length_append, length_spell, length_straddling] at hlength
    rw [zipEntries, failIf_bind (by omega), findZipEnd_straddling, ok_bind, readEnd_eq (by omega),
      ok_bind, failIf_bind_of (by simp [endAt_straddling])]

end MailPortal.Documents
