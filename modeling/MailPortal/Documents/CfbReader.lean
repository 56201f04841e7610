import MailPortal.Documents.Reading
import MailPortal.Lib.Walk
import MailPortal.Platform.JavaScript
import Mathlib.Data.List.Infix

/-!
# Reading Compound Files

A workbook in the old format is a compound file: sectors that a table of sectors (the FAT) links, a
directory of entries that link one another, and streams, small ones in 64 bytes of a stream that the
root entry has. `preflightXls` follows all of these links and looks through the records of the
workbook.

Texts are lists of code units. A `DataView` of part of an array and its numbers are read with
`dataView`, `getUint16`, `getUint32` and `byteAt`, which go wrong outside.
-/

namespace MailPortal.Documents

open Bytes Failure

/-- `CFB_FREE_SECTOR` -/
def CFB_FREE_SECTOR : ℕ := 0xffffffff

/-- `CFB_END_OF_CHAIN` -/
def CFB_END_OF_CHAIN : ℕ := 0xfffffffe

/-- `CFB_FAT_SECTOR` -/
def CFB_FAT_SECTOR : ℕ := 0xfffffffd

/-- `CFB_DIFAT_SECTOR` -/
def CFB_DIFAT_SECTOR : ℕ := 0xfffffffc

/-- `CFB_MAX_CHAIN_SECTORS` -/
def CFB_MAX_CHAIN_SECTORS : ℕ := 16384

/-- `new DataView(buffer, offset, length)` -/
def dataView (bytes : List UInt8) (offset length : ℕ) : Reader (List UInt8) :=
  orThrow
    (if offset + length ≤ bytes.length then some (slice bytes offset (offset + length)) else none)
    .outside

/-- What is read at each step of a `for`. -/
def readEach {α : Type} (read : ℕ → Reader α) : List ℕ → Reader (List α)
  | [] => .ok []
  | i :: rest => do
    let a ← read i
    let more ← readEach read rest
    return a :: more

/-- The numbers of a view, four bytes each. -/
def readNumbers (view : List UInt8) : Reader (List ℕ) :=
  readEach (fun i => getUint32 view (i * 4)) (List.range ((view.length + 3) / 4))

/-! ### Sectors -/

/-- Sectors behind the one of the header, in a file of whole sectors. -/
def totalSectors (bytes : List UInt8) (sectorSize : ℕ) : ℕ :=
  (bytes.length - sectorSize) / sectorSize

/-- The bytes of a sector. -/
def sectorAt (bytes : List UInt8) (sectorSize sectorId : ℕ) : List UInt8 :=
  let offset := sectorSize + sectorId * sectorSize
  slice bytes offset (offset + sectorSize)

def cfbSector (bytes : List UInt8) (sectorSize sectorId : ℕ) : Reader (List UInt8) := do
  failIf (sectorId ≥ totalSectors bytes sectorSize) .invalid_container
  return sectorAt bytes sectorSize sectorId

/-- A pass of the loop of `cfbChain`, with the sectors seen before. -/
def visitSector (bytes : List UInt8) (sectorSize : ℕ) (fat : List ℕ) (maximumSectors : ℕ)
    (seen : List ℕ) (sector : ℕ) : Reader (List UInt8 × ℕ) := do
  failIf (sector = CFB_FREE_SECTOR ∨ sector = CFB_FAT_SECTOR ∨ sector = CFB_DIFAT_SECTOR ∨
    sector ∈ seen ∨ seen.length ≥ maximumSectors ∨ sector ≥ fat.length) .invalid_container
  let data ← cfbSector bytes sectorSize sector
  let next ← orThrow fat[sector]? .outside
  return (data, next)

def cfbChain (bytes : List UInt8) (sectorSize : ℕ) (fat : List ℕ) (startSector maximumSectors : ℕ) :
    Reader (List UInt8) := do
  let s ← Walk.walk .stuck CFB_END_OF_CHAIN (visitSector bytes sectorSize fat maximumSectors)
    (fat.length + 1) ⟨[], [], startSector⟩
  return s.pieces.flatten

/-! ### The header and the table -/

/-- What is read of the header. -/
structure Header where
  view : List UInt8
  major : ℕ
  sectorSize : ℕ
  fatCount : ℕ

def signature : List UInt8 := [0xd0, 0xcf, 0x11, 0xe0, 0xa1, 0xb1, 0x1a, 0xe1]

def readHeader (bytes : List UInt8) : Reader Header := do
  failIf (bytes.length < 1024) .invalid_container
  failIf (bytes.take 8 ≠ signature) .invalid_container
  let view ← boundedView bytes 0 512
  let major ← getUint16 view 26
  let sectorShift ← getUint16 view 30
  let sectorSize := 2 ^ sectorShift
  let byteOrder ← getUint16 view 28
  let miniShift ← getUint16 view 32
  failIf (byteOrder ≠ 0xfffe ∨ miniShift ≠ 6 ∨
    ¬((major = 3 ∧ sectorSize = 512) ∨ (major = 4 ∧ sectorSize = 4096)) ∨
    bytes.length < sectorSize ∨ (bytes.length - sectorSize) % sectorSize ≠ 0) .invalid_container
  let fatCount ← getUint32 view 44
  failIf (fatCount = 0 ∨ fatCount > totalSectors bytes sectorSize ∨
    fatCount > CFB_MAX_CHAIN_SECTORS) .invalid_container
  return ⟨view, major, sectorSize, fatCount⟩

/-- The sectors of the table so far, and where the list of them goes on. -/
structure Difat where
  fatSectors : List ℕ
  seen : List ℕ
  sector : ℕ

/-- The loop over `difatCount`. -/
def readDifat (bytes : List UInt8) (sectorSize : ℕ) : (count : ℕ) → Difat → Reader Difat
  | 0, s => .ok s
  | count + 1, s => do
    failIf (s.sector ∈ s.seen) .invalid_container
    let view ← cfbSector bytes sectorSize s.sector
    let values ← readEach (fun item => getUint32 view (item * 4)) (List.range (sectorSize / 4 - 1))
    let next ← getUint32 view (sectorSize - 4)
    readDifat bytes sectorSize count
      ⟨s.fatSectors ++ values.filter (· ≠ CFB_FREE_SECTOR), s.seen ++ [s.sector], next⟩

def readFatSectors (bytes : List UInt8) (header : Header) : Reader (List ℕ) := do
  let values ← readEach (fun index => getUint32 header.view (76 + index * 4)) (List.range 109)
  let difatCount ← getUint32 header.view 72
  let difatSector ← getUint32 header.view 68
  let s ← readDifat bytes header.sectorSize difatCount
    ⟨values.filter (· ≠ CFB_FREE_SECTOR), [], difatSector⟩
  failIf (s.sector ≠ CFB_END_OF_CHAIN ∨ s.fatSectors.length ≠ header.fatCount) .invalid_container
  failIf (¬s.fatSectors.Nodup) .invalid_container
  return s.fatSectors

/-- The numbers of the sectors of the table, one sector after the other. -/
def readSectors (bytes : List UInt8) (sectorSize : ℕ) : List ℕ → Reader (List ℕ)
  | [] => .ok []
  | sector :: rest => do
    let data ← cfbSector bytes sectorSize sector
    let numbers ← readNumbers data
    let more ← readSectors bytes sectorSize rest
    return numbers ++ more

def readFat (bytes : List UInt8) (sectorSize : ℕ) (fatSectors : List ℕ) : Reader (List ℕ) := do
  let fat ← readSectors bytes sectorSize fatSectors
  failIf (fatSectors.any fun sector => fat[sector]? ≠ some CFB_FAT_SECTOR) .invalid_container
  return fat

/-! ### The directory -/

/-- An entry of the directory. -/
structure DirectoryEntry where
  index : ℕ
  name : List ℕ
  type : ℕ
  left : ℕ
  right : ℕ
  child : ℕ
  startSector : ℕ
  size : ℕ

def readEntryName (view : List UInt8) (nameLength : ℕ) : Reader (List ℕ) :=
  readEach (fun i => do
    let codeUnit ← getUint16 view (i * 2)
    failIf (codeUnit = 0) .invalid_container
    return codeUnit) (List.range ((nameLength - 2) / 2))

/-- The entry at an index, unless it is not in use. -/
def readEntry (major : ℕ) (directory : List UInt8) (index : ℕ) :
    Reader (Option DirectoryEntry) := do
  let view ← dataView directory (index * 128) 128
  let nameLength ← getUint16 view 64
  let type ← byteAt view 66
  if type = 0 ∧ nameLength = 0 then .ok none
  else do
    failIf (nameLength < 2 ∨ nameLength > 64 ∨ nameLength % 2 ≠ 0 ∨ type ∉ [1, 2, 5])
      .invalid_container
    let terminator ← getUint16 view (nameLength - 2)
    failIf (terminator ≠ 0) .invalid_container
    let name ← readEntryName view nameLength
    let highSize ← getUint32 view 124
    failIf (major = 3 ∧ highSize ≠ 0) .invalid_container
    let lowSize ← getUint32 view 120
    let size := lowSize + highSize * 0x100000000
    failIf (size > MAX_SAFE_INTEGER ∨ size > ZIP_MAX_UNCOMPRESSED_BYTES) .decompression_exceeded
    let left ← getUint32 view 68
    let right ← getUint32 view 72
    let child ← getUint32 view 76
    let startSector ← getUint32 view 116
    return some ⟨index, name, type, left, right, child, startSector, size⟩

def readDirectory (bytes : List UInt8) (header : Header) (fat : List ℕ) :
    Reader (List DirectoryEntry) := do
  let startSector ← getUint32 header.view 48
  let directory ← cfbChain bytes header.sectorSize fat startSector CFB_MAX_CHAIN_SECTORS
  failIf (directory.length = 0 ∨ directory.length % 128 ≠ 0) .invalid_container
  let entries ← readEach (readEntry header.major directory)
    (List.range ((directory.length + 127) / 128))
  return entries.filterMap id

/-! ### The tree of entries -/

/-- `byIndex.get(index)` -/
def byIndex (entries : List DirectoryEntry) (index : ℕ) : Option DirectoryEntry :=
  entries.find? fun entry => entry.index = index

/-- The indexes to come, the next one first, and those that were reached. -/
structure Traversal where
  stack : List ℕ
  reachable : List ℕ

/-- What is below an entry besides its siblings. -/
def childOf (entry : DirectoryEntry) : Reader (List ℕ) :=
  if entry.type = 1 then .ok [entry.child]
  else do
    failIf (entry.child ≠ CFB_FREE_SECTOR) .invalid_container
    return []

/-- A pass of the loop over the stack. -/
def visitEntry (entries : List DirectoryEntry) (s : Traversal) : Reader Traversal :=
  match s.stack with
  | [] => .ok s
  | index :: stack =>
    if index = CFB_FREE_SECTOR then .ok { s with stack := stack }
    else do
      let entry ← orThrow (byIndex entries index) (.extraction .invalid_container)
      failIf (entry.type = 5 ∨ index ∈ s.reachable) .invalid_container
      let reachable := s.reachable ++ [index]
      failIf (reachable.length > entries.length) .invalid_container
      let below ← childOf entry
      return ⟨entry.left :: (below ++ entry.right :: stack), reachable⟩

/-- The indexes that are reached from the root. Every index puts three more on the stack at most. -/
def reach (entries : List DirectoryEntry) (child : ℕ) : Reader (List ℕ) := do
  let s ← Loop.whileLoop .stuck (fun s : Traversal => !s.stack.isEmpty) (visitEntry entries)
    (4 * entries.length + 2) ⟨[child], []⟩
  failIf (s.reachable.length ≠ entries.length - 1) .invalid_container
  return s.reachable

section Names

variable (toLowerCase : List ℕ → List ℕ)

def lowerName (entry : DirectoryEntry) : List ℕ := toLowerCase entry.name

def checkNames (entries : List DirectoryEntry) : Reader Unit := do
  let normalizedNames := entries.map (lowerName toLowerCase)
  failIf (normalizedNames.any fun name =>
    units "vba" <:+: name || units "macro" <:+: name || name = units "_vba_project_cur" ||
      name = units "objectpool" || name = units "ole10native" || name = units "package")
    .active_content
  failIf (normalizedNames.any fun name =>
    name = units "encryptedpackage" || name = units "encryptioninfo" || name = units "dataspaces" ||
      name = units "drmcontent") .encrypted_document

def findWorkbook (entries : List DirectoryEntry) : Reader DirectoryEntry :=
  match entries.filter fun entry => entry.type = 2 &&
      (lowerName toLowerCase entry = units "workbook" || lowerName toLowerCase entry = units "book")
    with
  | [workbook] => do
    failIf (workbook.size = 0) .invalid_container
    return workbook
  | _ => failure .invalid_container

end Names

def findRoot (entries : List DirectoryEntry) : Reader DirectoryEntry :=
  match entries.filter fun entry => entry.type = 5 with
  | [root] => do
    failIf (root.index ≠ 0 ∨ root.name ≠ units "Root Entry" ∨ root.left ≠ CFB_FREE_SECTOR ∨
      root.right ≠ CFB_FREE_SECTOR) .invalid_container
    return root
  | _ => failure .invalid_container

/-! ### The stream of the workbook -/

/-- The bytes of a mini sector. -/
def miniSectorAt (miniStream : List UInt8) (sector : ℕ) : List UInt8 :=
  slice miniStream (sector * 64) (sector * 64 + 64)

/-- A pass of the loop over the mini sectors, with those seen before. -/
def visitMiniSector (miniFat : List ℕ) (miniStream : List UInt8) (seen : List ℕ) (sector : ℕ) :
    Reader (List UInt8 × ℕ) := do
  failIf (sector ≥ miniFat.length ∨ sector ∈ seen) .invalid_container
  failIf (sector * 64 + 64 > miniStream.length) .invalid_container
  let next ← orThrow miniFat[sector]? .outside
  return (miniSectorAt miniStream sector, next)

def readMiniFat (bytes : List UInt8) (header : Header) (fat : List ℕ) : Reader (List ℕ) := do
  let miniFatCount ← getUint32 header.view 64
  failIf (miniFatCount = 0) .invalid_container
  let startSector ← getUint32 header.view 60
  let miniFatBytes ← cfbChain bytes header.sectorSize fat startSector miniFatCount
  readNumbers miniFatBytes

/-- The stream of an entry in sectors. -/
def readStream (bytes : List UInt8) (header : Header) (fat : List ℕ) (entry : DirectoryEntry) :
    Reader (List UInt8) := do
  let chain ← cfbChain bytes header.sectorSize fat entry.startSector CFB_MAX_CHAIN_SECTORS
  return slice chain 0 entry.size

/-- The stream of an entry in mini sectors. -/
def readMiniStream (bytes : List UInt8) (header : Header) (fat : List ℕ)
    (root entry : DirectoryEntry) : Reader (List UInt8) := do
  let miniFat ← readMiniFat bytes header fat
  let miniStream ← readStream bytes header fat root
  let s ← Walk.walk .stuck CFB_END_OF_CHAIN (visitMiniSector miniFat miniStream)
    (miniFat.length + 1) ⟨[], [], entry.startSector⟩
  return slice s.pieces.flatten 0 entry.size

/-- The stream of an entry, which is in mini sectors when it is small. -/
def readStreamOf (bytes : List UInt8) (header : Header) (fat : List ℕ)
    (root entry : DirectoryEntry) (miniCutoff : ℕ) : Reader (List UInt8) :=
  if entry.size ≥ miniCutoff then readStream bytes header fat entry
  else readMiniStream bytes header fat root entry

def readWorkbook (bytes : List UInt8) (header : Header) (fat : List ℕ)
    (root workbook : DirectoryEntry) : Reader (List UInt8) := do
  let miniCutoff ← getUint32 header.view 56
  let workbookBytes ← readStreamOf bytes header fat root workbook miniCutoff
  failIf (workbookBytes.length ≠ workbook.size) .invalid_container
  return workbookBytes

/-! ### Records -/

/-- Where the loop over the records is, and what it has seen. -/
structure Records where
  offset : ℕ
  inSubstream : Bool
  sawGlobals : Bool
  sawEof : Bool
  stopped : Bool

/-- What a record `BOF` does, and that other records are between it and an `EOF`. -/
def openSubstream (s : Records) (record : ℕ) (payload : List UInt8) : Reader Records :=
  if record = 0x0809 then do
    failIf (s.inSubstream = true ∨ payload.length < 4) .invalid_container
    let type ← getUint16 payload 2
    failIf (s.sawGlobals = false ∧ type ≠ 0x0005) .invalid_container
    failIf (type = 0x0040 ∨ type = 0x0006) .active_content
    return { s with sawGlobals := true, inSubstream := true }
  else do
    failIf (s.inSubstream = false) .invalid_container
    return s

/-- The records that are refused wherever they are. -/
def checkRecord (record : ℕ) (payload : List UInt8) : Reader Unit := do
  failIf (record = 0x002f) .encrypted_document
  failIf (record = 0x00d3) .active_content
  failIf (record ∈ [0x005d, 0x007f, 0x00eb, 0x00ec, 0x00ed]) .active_content
  if record = 0x0085 ∧ payload.length ≥ 6 then do
    let sheetType ← byteAt payload 5
    failIf (sheetType = 0x01 ∨ sheetType = 0x06) .active_content
  else .ok ()

/-- What a record `EOF` does. -/
def closeSubstream (s : Records) (record : ℕ) (payload : List UInt8) : Reader Records :=
  if record = 0x000a then do
    failIf (payload.length ≠ 0) .invalid_container
    return { s with sawEof := true, inSubstream := false }
  else .ok s

/-- Zeros between substreams are padding to the end. -/
def skipPadding (stream : List UInt8) (s : Records) : Reader Records :=
  if s.inSubstream = false ∧ s.offset + 4 ≤ stream.length ∧
      slice stream s.offset (s.offset + 4) = [0, 0, 0, 0] then do
    failIf (¬(stream.drop s.offset).all (· = 0)) .invalid_container
    return { s with stopped := true }
  else .ok s

/-- A pass of the loop over the records. -/
def nextRecord (stream : List UInt8) (s : Records) : Reader Records := do
  let view ← dataView stream s.offset 4
  let record ← getUint16 view 0
  let length ← getUint16 view 2
  failIf (record = 0x0000) .invalid_container
  failIf (s.offset + 4 + length > stream.length) .invalid_container
  let payload ← boundedView stream (s.offset + 4) length
  let s ← openSubstream s record payload
  checkRecord record payload
  let s ← closeSubstream s record payload
  skipPadding stream { s with offset := s.offset + 4 + length }

def checkRecords (stream : List UInt8) : Reader Unit := do
  let s ← Loop.whileLoop .stuck (fun s : Records => !s.stopped && s.offset + 4 ≤ stream.length)
    (nextRecord stream) (stream.length + 1) ⟨0, false, false, false, false⟩
  failIf (s.sawGlobals = false ∨ s.sawEof = false ∨ s.inSubstream = true) .invalid_container

def preflightXls (toLowerCase : List ℕ → List ℕ) (bytes : List UInt8) : Reader Unit := do
  let header ← readHeader bytes
  let fatSectors ← readFatSectors bytes header
  let fat ← readFat bytes header.sectorSize fatSectors
  let directoryEntries ← readDirectory bytes header fat
  checkNames toLowerCase directoryEntries
  let workbook ← findWorkbook toLowerCase directoryEntries
  let root ← findRoot directoryEntries
  let _ ← reach directoryEntries root.child
  let workbookBytes ← readWorkbook bytes header fat root workbook
  checkRecords workbookBytes

end MailPortal.Documents
