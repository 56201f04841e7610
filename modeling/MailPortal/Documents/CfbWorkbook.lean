import MailPortal.Documents.CfbDirectory
import MailPortal.Documents.CfbRecords

/-!
# Accepted Workbooks

`preflightXls` returns or refuses, whatever the bytes are. What it has read when it returns is a
compound file as far as it goes: a table of sectors that is marked as such, a directory that is a
tree, and a workbook in a chain of distinct sectors, whose records are substreams.

Main results:

* `preflightXls_workbook` : every array is accepted or refused, and an accepted one is a `Workbook`.
-/

namespace MailPortal.Documents

open Bytes Failure

/-- What the reader of an accepted file has read. -/
structure Workbook (toLowerCase : List ℕ → List ℕ) (bytes : List UInt8) where
  header : Header
  fatSectors : List ℕ
  fat : List ℕ
  entries : List DirectoryEntry
  root : DirectoryEntry
  workbook : DirectoryEntry
  stream : List UInt8
  substreams : List Biff.Substream
  tail : List UInt8
  read_header : readHeader bytes = .ok header
  read_fatSectors : readFatSectors bytes header = .ok fatSectors
  read_fat : readFat bytes header.sectorSize fatSectors = .ok fat
  read_entries : readDirectory bytes header fat = .ok entries
  find_workbook : findWorkbook toLowerCase entries = .ok workbook
  directory : InDirectory bytes header fat entries
  marked : Marked bytes header.sectorSize fatSectors fat
  spanned : Spanned entries root
  inside : InSectors bytes header.sectorSize fat workbook stream ∨
    InMiniSectors bytes header fat root workbook stream
  size : stream.length = workbook.size
  bracketed : Bracketed stream substreams tail

variable (toLowerCase : List ℕ → List ℕ) (bytes : List UInt8)

theorem contained_preflightXls : Contained (preflightXls toLowerCase bytes) :=
  contained_bind contained_readHeader fun _ hheader =>
    have hfits := readHeader_fits hheader
    contained_bind (contained_readFatSectors hfits) fun _ _ =>
    contained_bind (contained_readFat hfits) fun _ _ =>
    contained_bind (contained_readDirectory hfits) fun _ _ =>
    contained_bind contained_checkNames fun _ _ => contained_bind contained_findWorkbook fun _ _ =>
    contained_bind contained_findRoot fun _ _ => contained_bind contained_reach fun _ _ =>
    contained_bind (contained_readWorkbook hfits) fun _ _ => contained_checkRecords

/-- **Every array of bytes** is accepted or refused, and an accepted one is a workbook. -/
theorem preflightXls_workbook : Contained (preflightXls toLowerCase bytes) ∧
    (preflightXls toLowerCase bytes = .ok () → Nonempty (Workbook toLowerCase bytes)) := by
  refine ⟨contained_preflightXls toLowerCase bytes, fun h => ?_⟩
  obtain ⟨header, hheader, h⟩ := bind_eq_ok.mp h
  obtain ⟨fatSectors, hsectors, h⟩ := bind_eq_ok.mp h
  obtain ⟨fat, hfat, h⟩ := bind_eq_ok.mp h
  obtain ⟨entries, hentries, h⟩ := bind_eq_ok.mp h
  obtain ⟨_, -, h⟩ := bind_eq_ok.mp h
  obtain ⟨workbook, hworkbook, h⟩ := bind_eq_ok.mp h
  obtain ⟨root, hroot, h⟩ := bind_eq_ok.mp h
  obtain ⟨order, hreach, h⟩ := bind_eq_ok.mp h
  obtain ⟨stream, hstream, h⟩ := bind_eq_ok.mp h
  obtain ⟨substreams, tail, hbracketed⟩ := checkRecords_bracketed h
  obtain ⟨hinside, hsize⟩ := readWorkbook_eq_ok hstream
  exact ⟨{
    header, fatSectors, fat, entries, root, workbook, stream, substreams, tail
    read_header := hheader
    read_fatSectors := hsectors
    read_fat := hfat
    read_entries := hentries
    find_workbook := hworkbook
    directory := readDirectory_eq_ok hentries
    marked := readFat_marked hsectors hfat
    spanned := reach_spanned hentries hroot hreach
    inside := hinside
    size := hsize
    bracketed := hbracketed }⟩

/-! ### A file -/

/-- An entry of the directory, without siblings. -/
def sampleEntry (name : String) (type child startSector size : ℕ) : List UInt8 :=
  let letters := name.toList.flatMap fun c => [UInt8.ofNat c.toNat, 0]
  letters ++ List.replicate (64 - letters.length) 0 ++
    layout [(2, letters.length + 2), (1, type), (1, 0), (4, CFB_FREE_SECTOR), (4, CFB_FREE_SECTOR),
      (4, child)] ++
    List.replicate 36 0 ++ layout [(4, startSector), (4, size), (4, 0)]

/-- A header, the sector of the table, that of the directory, and that of a workbook of two
records. -/
def sampleFile : List UInt8 :=
  signature ++ List.replicate 16 0 ++
    layout [(2, 0x3e), (2, 3), (2, 0xfffe), (2, 9), (2, 6)] ++ List.replicate 10 0 ++
    layout [(4, 1), (4, 1), (4, 0), (4, 0), (4, CFB_END_OF_CHAIN), (4, 0), (4, CFB_END_OF_CHAIN),
      (4, 0), (4, 0)] ++ List.replicate 432 0xff ++
  (layout [(4, CFB_FAT_SECTOR), (4, CFB_END_OF_CHAIN), (4, CFB_END_OF_CHAIN)] ++
    List.replicate 500 0xff) ++
  (sampleEntry "Root Entry" 5 1 CFB_END_OF_CHAIN 0 ++
    sampleEntry "Workbook" 2 CFB_FREE_SECTOR 2 12 ++ List.replicate 256 0) ++
  ([0x09, 0x08, 4, 0, 0, 6, 5, 0, 0x0a, 0, 0, 0] ++ List.replicate 500 0)

/-- The file is accepted. -/
theorem preflightXls_workbook_sample :
    Nonempty (Workbook (List.map fun u => if 65 ≤ u ∧ u ≤ 90 then u + 32 else u) sampleFile) :=
  (preflightXls_workbook _ sampleFile).2 (by decide +kernel)

end MailPortal.Documents
