import MailPortal.Documents.Reading
import MailPortal.Lib.Tiling
import MailPortal.Platform.Text

/-!
# The ZIP Preflight

`zipEntries` lists the files of a ZIP container before anything is extracted. It finds the end
record from behind, reads the central records one after the other, each with the local record it
points to, and at last compares the ranges of the local records.
-/

namespace MailPortal.Documents

open Bytes Failure

/-- `ZIP_LOCAL_SIGNATURE` -/
def ZIP_LOCAL_SIGNATURE : ℕ := 0x04034b50

/-- `ZIP_CENTRAL_SIGNATURE` -/
def ZIP_CENTRAL_SIGNATURE : ℕ := 0x02014b50

/-- `ZIP_END_SIGNATURE` -/
def ZIP_END_SIGNATURE : ℕ := 0x06054b50

/-- `ZIP_MAX_ENTRIES` -/
def ZIP_MAX_ENTRIES : ℕ := 1000

/-- A file of the archive. -/
structure ZipEntry where
  name : String
  method : ℕ
  crc : ℕ
  compressedSize : ℕ
  uncompressedSize : ℕ
  dataStart : ℕ
deriving DecidableEq

/-! ### Names and extra fields -/

def decodeUtf8 (bytes : List UInt8) : Reader String :=
  orThrow (utf8Decode bytes) (.extraction .invalid_container)

/-- `/[\\\u0000-\u001f\u007f]/u` -/
def isForbiddenInName (c : Char) : Bool := c = '\\' || c.toNat ≤ 0x1f || c.toNat = 0x7f

/-- `/[a-z]/iu`, which folds the long s and the Kelvin sign to letters. -/
def isDriveLetter (c : Char) : Bool :=
  ('a' ≤ c && c ≤ 'z') || ('A' ≤ c && c ≤ 'Z') || c = '\u017f' || c = '\u212a'

/-- `/^[a-z]:/iu` -/
def startsWithDrive : List Char → Bool
  | c :: ':' :: _ => isDriveLetter c
  | _ => false

/-- `value.split("/")` -/
def segments (value : String) : List (List Char) := value.toList.splitOn '/'

def safeZipName (value : String) : Reader String := do
  failIf (value = "" ∨ codeUnits value > 1024 ∨ value.toList.any isForbiddenInName ∨
    value.toList.head? = some '/' ∨ startsWithDrive value.toList) .invalid_container
  failIf ((segments value).any fun piece => piece = ['.', '.'] || piece = ['.']) .invalid_container
  return value

/-- `allowedMetadata` -/
def allowedMetadata : List ℕ := [0x000a, 0x5455, 0x5855, 0x7875]

/-- Where `validateZipExtra` is, and the identifiers it has seen. -/
structure ExtraState where
  offset : ℕ
  seen : List ℕ

/-- A pass of the `while` loop of `validateZipExtra`. -/
def validateField (extra : List UInt8) (s : ExtraState) : Reader ExtraState := do
  failIf (s.offset + 4 > extra.length) .invalid_container
  let view ← boundedView extra s.offset 4
  let identifier ← getUint16 view 0
  let length ← getUint16 view 2
  failIf (s.offset + 4 + length > extra.length ∨ identifier ∈ s.seen ∨
    identifier ∉ allowedMetadata) .invalid_container
  return ⟨s.offset + 4 + length, identifier :: s.seen⟩

def validateZipExtra (extra : List UInt8) : Reader Unit := do
  let _ ← scan ExtraState.offset extra (validateField extra) (extra.length + 1) ⟨0, []⟩
  return ()

/-! ### The end record -/

/-- The `for` loop of `findZipEnd` from an offset down, by the number of its passes. -/
def findZipEndFrom (bytes : List UInt8) (minimum : ℕ) : ℕ → Reader ℕ
  | 0 => failure .invalid_container
  | passes + 1 => do
    let offset := minimum + passes
    let view ← boundedView bytes offset 4
    let signature ← getUint32 view 0
    if signature = ZIP_END_SIGNATURE then do
      let comment ← boundedView bytes (offset + 20) 2
      let commentLength ← getUint16 comment 0
      if offset + 22 + commentLength = bytes.length then return offset
      else findZipEndFrom bytes minimum passes
    else findZipEndFrom bytes minimum passes

def findZipEnd (bytes : List UInt8) : Reader ℕ :=
  let minimum := bytes.length - 65557
  findZipEndFrom bytes minimum (bytes.length - 22 + 1 - minimum)

/-! ### Records -/

/-- What is read of a central record. -/
structure CentralHeader where
  flags : ℕ
  method : ℕ
  crc : ℕ
  compressedSize : ℕ
  uncompressedSize : ℕ
  nameLength : ℕ
  extraLength : ℕ
  commentLength : ℕ
  localOffset : ℕ
deriving DecidableEq

def readCentral (bytes : List UInt8) (offset : ℕ) : Reader CentralHeader := do
  let central ← boundedView bytes offset 46
  let signature ← getUint32 central 0
  failIf (signature ≠ ZIP_CENTRAL_SIGNATURE) .invalid_container
  let flags ← getUint16 central 8
  let method ← getUint16 central 10
  let crc ← getUint32 central 16
  let compressedSize ← getUint32 central 20
  let uncompressedSize ← getUint32 central 24
  let nameLength ← getUint16 central 28
  let extraLength ← getUint16 central 30
  let commentLength ← getUint16 central 32
  let localOffset ← getUint32 central 42
  return ⟨flags, method, crc, compressedSize, uncompressedSize, nameLength, extraLength,
    commentLength, localOffset⟩

/-- What is read of a local record. -/
structure LocalHeader where
  flags : ℕ
  method : ℕ
  crc : ℕ
  compressedSize : ℕ
  uncompressedSize : ℕ
  nameLength : ℕ
  extraLength : ℕ
deriving DecidableEq

def readLocal (bytes : List UInt8) (offset : ℕ) : Reader LocalHeader := do
  let view ← boundedView bytes offset 30
  let signature ← getUint32 view 0
  failIf (signature ≠ ZIP_LOCAL_SIGNATURE) .invalid_container
  let flags ← getUint16 view 6
  let method ← getUint16 view 8
  let crc ← getUint32 view 14
  let compressedSize ← getUint32 view 18
  let uncompressedSize ← getUint32 view 22
  let nameLength ← getUint16 view 26
  let extraLength ← getUint16 view 28
  return ⟨flags, method, crc, compressedSize, uncompressedSize, nameLength, extraLength⟩

/-- The variables of the `for` loop over the central records. -/
structure ZipState where
  offset : ℕ
  entries : List ZipEntry
  names : List String
  ranges : List (ℕ × ℕ)
  totalCompressed : ℕ
  totalUncompressed : ℕ

/-- The checks of what a central record declares. -/
def checkDeclared (s : ZipState) (central : CentralHeader) : Reader Unit := do
  failIf (central.flags &&& 0x0001 ≠ 0 ∨ central.flags &&& 0x0040 ≠ 0) .encrypted_document
  failIf (central.flags &&& 0x0008 ≠ 0) .invalid_container
  failIf (central.method ≠ 0 ∧ central.method ≠ 8) .invalid_container
  failIf (central.method = 0 ∧ central.compressedSize ≠ central.uncompressedSize)
    .invalid_container
  -- A quotient of the source is above the ratio just if the product is below the dividend.
  failIf ((central.uncompressedSize > 0 ∧ central.compressedSize = 0) ∨
    (central.compressedSize > 0 ∧
      central.uncompressedSize > ZIP_MAX_RATIO * central.compressedSize)) .decompression_exceeded
  let totalCompressed := s.totalCompressed + central.compressedSize
  let totalUncompressed := s.totalUncompressed + central.uncompressedSize
  failIf (totalUncompressed > ZIP_MAX_UNCOMPRESSED_BYTES ∨
    (totalCompressed > 0 ∧ totalUncompressed > ZIP_MAX_RATIO * totalCompressed))
    .decompression_exceeded

/-- The local record of a central one, and where its data start. -/
def readMatchingLocal (bytes : List UInt8) (centralOffset : ℕ) (central : CentralHeader)
    (name : String) : Reader ℕ := do
  let header ← readLocal bytes central.localOffset
  let nameStart := central.localOffset + 30
  let nameEnd := nameStart + header.nameLength
  failIf (nameEnd + header.extraLength > centralOffset) .invalid_container
  let localName ← decodeUtf8 (slice bytes nameStart nameEnd)
  failIf (header.flags ≠ central.flags ∨ header.method ≠ central.method ∨ localName ≠ name)
    .invalid_container
  validateZipExtra (slice bytes nameEnd (nameEnd + header.extraLength))
  failIf (header.crc ≠ central.crc ∨ header.compressedSize ≠ central.compressedSize ∨
    header.uncompressedSize ≠ central.uncompressedSize) .invalid_container
  let dataStart := nameEnd + header.extraLength
  failIf (dataStart < central.localOffset ∨ dataStart + central.compressedSize > centralOffset)
    .invalid_container
  return dataStart

/-- A pass of the `for` loop over the central records. -/
def readRecord (toLowerCase : String → String) (bytes : List UInt8) (centralOffset endOffset : ℕ)
    (s : ZipState) : Reader ZipState := do
  let central ← readCentral bytes s.offset
  let nameStart := s.offset + 46
  let nameEnd := nameStart + central.nameLength
  let extraEnd := nameEnd + central.extraLength
  failIf (extraEnd + central.commentLength > endOffset) .invalid_container
  let decoded ← decodeUtf8 (slice bytes nameStart nameEnd)
  let name ← safeZipName decoded
  validateZipExtra (slice bytes nameEnd extraEnd)
  let normalizedName := toLowerCase name
  failIf (normalizedName ∈ s.names) .invalid_container
  checkDeclared s central
  let dataStart ← readMatchingLocal bytes centralOffset central name
  let dataEnd := dataStart + central.compressedSize
  return {
    offset := extraEnd + central.commentLength
    entries := s.entries ++ [⟨name, central.method, central.crc, central.compressedSize,
      central.uncompressedSize, dataStart⟩]
    names := normalizedName :: s.names
    ranges := s.ranges ++ [(central.localOffset, dataEnd)]
    totalCompressed := s.totalCompressed + central.compressedSize
    totalUncompressed := s.totalUncompressed + central.uncompressedSize }

/-- The `for` loop over the central records. -/
def readRecords (toLowerCase : String → String) (bytes : List UInt8) (centralOffset endOffset : ℕ) :
    ℕ → ZipState → Reader ZipState
  | 0, s => .ok s
  | count + 1, s => do
    let s ← readRecord toLowerCase bytes centralOffset endOffset s
    readRecords toLowerCase bytes centralOffset endOffset count s

/-- What is read of the end record. -/
@[ext]
structure EndRecord where
  disk : ℕ
  centralDisk : ℕ
  diskEntries : ℕ
  totalEntries : ℕ
  centralSize : ℕ
  centralOffset : ℕ
deriving DecidableEq

def readEnd (bytes : List UInt8) (endOffset : ℕ) : Reader EndRecord := do
  let view ← boundedView bytes endOffset 22
  let disk ← getUint16 view 4
  let centralDisk ← getUint16 view 6
  let diskEntries ← getUint16 view 8
  let totalEntries ← getUint16 view 10
  let centralSize ← getUint32 view 12
  let centralOffset ← getUint32 view 16
  return ⟨disk, centralDisk, diskEntries, totalEntries, centralSize, centralOffset⟩

/-- The comparison of the ranges: the `for` loop fails where two do not touch. -/
def compareRanges (ranges : List (ℕ × ℕ)) (centralOffset : ℕ) : Reader Unit := do
  let ranges := ranges.mergeSort fun left right => left.1 ≤ right.1
  failIf (ranges.head?.map Prod.fst ≠ some 0 ∨ ranges.getLast?.map Prod.snd ≠ some centralOffset)
    .invalid_container
  failIf (Tiling.touches ranges = false) .invalid_container

def zipEntries (toLowerCase : String → String) (bytes : List UInt8) : Reader (List ZipEntry) := do
  failIf (bytes.length < 22) .invalid_container
  let endOffset ← findZipEnd bytes
  let record ← readEnd bytes endOffset
  failIf (record.disk ≠ 0 ∨ record.centralDisk ≠ 0 ∨ record.diskEntries ≠ record.totalEntries ∨
    record.totalEntries = 0 ∨ record.totalEntries > ZIP_MAX_ENTRIES ∨
    record.totalEntries = 0xffff ∨ record.centralSize = 0xffffffff ∨
    record.centralOffset = 0xffffffff ∨
    record.centralOffset + record.centralSize ≠ endOffset) .invalid_container
  let s ← readRecords toLowerCase bytes record.centralOffset endOffset record.totalEntries
    ⟨record.centralOffset, [], [], [], 0, 0⟩
  failIf (s.offset ≠ endOffset) .invalid_container
  compareRanges s.ranges record.centralOffset
  return s.entries

end MailPortal.Documents
