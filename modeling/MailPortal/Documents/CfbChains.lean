import MailPortal.Documents.CfbReader

/-!
# The Sectors of a Compound File

What the reader finds by following the links of the file: sectors that are inside the file, chains
of distinct sectors up to the mark of an end, and the stream of the workbook. None of these readers
reads outside an array or goes on for ever.

Main results:

* `cfbChain_eq_ok` : a chain is of distinct sectors inside the file.
* `readFat_marked` : the sectors of the table are distinct and marked.
* `readWorkbook_eq_ok` : the stream of the workbook is a chain cut to its size.
-/

namespace MailPortal.Documents

open Bytes Failure

variable {bytes : List UInt8} {sectorSize : ℕ}
variable {sector : ℕ} {data : List UInt8}
variable {α : Type} {read : ℕ → Reader α} {indexes seen : List ℕ}

/-! ### Loops that collect -/

/-- A loop that collects fails as its passes do. -/
theorem contained_readEach (h : ∀ i ∈ indexes, Contained (read i)) :
    Contained (readEach read indexes) := by
  induction indexes with
  | nil => exact contained_ok _
  | cons i rest ih =>
    obtain ⟨hhere, hrest⟩ := List.forall_mem_cons.mp h
    exact contained_bind hhere fun _ _ => contained_bind (ih hrest) fun _ _ => contained_ok _

/-- What is collected, in order. -/
theorem readEach_eq_ok {found : List α} (h : readEach read indexes = .ok found) :
    List.Forall₂ (fun i a => read i = .ok a) indexes found := by
  induction indexes generalizing found with
  | nil =>
    cases h
    exact List.Forall₂.nil
  | cons i rest ih =>
    obtain ⟨a, ha, h⟩ := bind_eq_ok.mp h
    obtain ⟨more, hmore, h⟩ := bind_eq_ok.mp h
    cases h
    exact List.Forall₂.cons ha (ih hmore)

/-- A view of whole numbers is read to its end. -/
theorem contained_readNumbers {view : List UInt8} (h : view.length % 4 = 0) :
    Contained (readNumbers view) :=
  contained_readEach fun i hi => contained_getUint32 (by have := List.mem_range.mp hi; omega)

/-! ### Sectors -/

/-- The sector is inside the file. -/
def InFile (bytes : List UInt8) (sectorSize sector : ℕ) : Prop :=
  sectorSize + sector * sectorSize + sectorSize ≤ bytes.length

/-- The sectors below the total are inside the file. -/
theorem inFile_of_lt (h : sector < totalSectors bytes sectorSize) :
    InFile bytes sectorSize sector := by
  have hdiv : (sector + 1) * sectorSize ≤ bytes.length - sectorSize :=
    (Nat.mul_le_mul_right sectorSize h).trans (Nat.div_mul_le_self _ _)
  have hpos : sectorSize ≠ 0 := by
    rintro rfl
    rw [totalSectors, Nat.div_zero] at h
    exact Nat.not_lt_zero _ h
  rw [Nat.add_mul, Nat.one_mul] at hdiv
  unfold InFile
  omega

/-- A sector inside the file is whole. -/
theorem length_sectorAt (h : InFile bytes sectorSize sector) :
    (sectorAt bytes sectorSize sector).length = sectorSize := by
  rw [sectorAt, length_slice h, Nat.add_sub_cancel_left]

/-- A sector that is read is inside the file. -/
theorem cfbSector_eq_ok (h : cfbSector bytes sectorSize sector = .ok data) :
    InFile bytes sectorSize sector ∧ data = sectorAt bytes sectorSize sector := by
  obtain ⟨_, hlt, hdata⟩ := bind_eq_ok.mp h
  exact ⟨inFile_of_lt (Nat.not_le.mp (failIf_eq_ok.mp hlt)), (Except.ok.inj hdata).symm⟩

/-- A sector is read inside the file, or the container is invalid. -/
theorem contained_cfbSector : Contained (cfbSector bytes sectorSize sector) :=
  contained_bind contained_failIf fun _ _ => contained_ok _

/-- A sector that is read is whole. -/
theorem length_cfbSector (h : cfbSector bytes sectorSize sector = .ok data) :
    data.length = sectorSize := by
  obtain ⟨hin, rfl⟩ := cfbSector_eq_ok h
  exact length_sectorAt hin

/-! ### Chains -/

section Chain

variable {fat : List ℕ} {startSector maximumSectors : ℕ}

/-- A visit reads the table and the file inside their bounds. -/
theorem contained_visitSector :
    Contained (visitSector bytes sectorSize fat maximumSectors seen sector) := by
  refine contained_bind contained_failIf fun _ hguard => ?_
  have hlt : sector < fat.length := by
    have := failIf_eq_ok.mp hguard
    omega
  refine contained_bind contained_cfbSector fun _ _ => contained_bind ?_ fun _ _ => contained_ok _
  rw [List.getElem?_eq_getElem hlt]
  exact contained_ok _

/-- What a visit has tested before it goes on. -/
theorem visitSector_guarded : Walk.Guarded (visitSector bytes sectorSize fat maximumSectors)
    (fun sector => sector < fat.length ∧ InFile bytes sectorSize sector)
    (fun sector => fat[sector]?)
    (sectorAt bytes sectorSize) := by
  intro seen sector data next h
  obtain ⟨_, hguard, h⟩ := bind_eq_ok.mp h
  obtain ⟨data', hdata, h⟩ := bind_eq_ok.mp h
  obtain ⟨next', hnext, h⟩ := bind_eq_ok.mp h
  cases h
  obtain ⟨hin, rfl⟩ := cfbSector_eq_ok hdata
  simp only [failIf_eq_ok, not_or] at hguard
  exact ⟨hguard.2.2.2.1, ⟨Nat.not_le.mp hguard.2.2.2.2.2, hin⟩, orThrow_eq_ok.mp hnext, rfl⟩

/-- Distinct sectors of the file that the table leads along, up to the mark of the end. -/
structure Chain (bytes : List UInt8) (sectorSize : ℕ) (fat : List ℕ) (startSector : ℕ)
    (path : List ℕ) : Prop where
  leads : Walk.Leads (fun sector => fat[sector]?) startSector path CFB_END_OF_CHAIN
  nodup : path.Nodup
  inFile : ∀ sector ∈ path, InFile bytes sectorSize sector

/-- The bytes of the sectors, one after the other. -/
def joined (bytes : List UInt8) (sectorSize : ℕ) (path : List ℕ) : List UInt8 :=
  path.flatMap (sectorAt bytes sectorSize)

/-- **A chain** is of distinct sectors inside the file. -/
theorem cfbChain_eq_ok (h : cfbChain bytes sectorSize fat startSector maximumSectors = .ok data) :
    ∃ path, Chain bytes sectorSize fat startSector path ∧ data = joined bytes sectorSize path := by
  obtain ⟨s, hwalk, h⟩ := bind_eq_ok.mp h
  cases h
  obtain ⟨hleads, hnodup, hvalid, hpieces⟩ := Walk.walk_ok visitSector_guarded hwalk
  exact ⟨s.seen, ⟨hleads, hnodup, fun sector hmem => (hvalid sector hmem).2⟩,
    by rw [hpieces, joined, List.flatMap_def]⟩

/-- **A chain ends**, at its mark or with a failure, whatever the table says. -/
theorem contained_cfbChain :
    Contained (cfbChain bytes sectorSize fat startSector maximumSectors) :=
  contained_bind (fun _ h => Walk.walk_error visitSector_guarded (fun _ h => h.1)
    (fun _ _ e h => contained_visitSector e h) (Nat.lt_succ_self _) h) fun _ _ => contained_ok _

/-- Sectors that are joined are whole. -/
theorem length_joined {path : List ℕ} (h : ∀ sector ∈ path, InFile bytes sectorSize sector) :
    (joined bytes sectorSize path).length = path.length * sectorSize := by
  induction path with
  | nil => rw [List.length_nil, Nat.zero_mul]; rfl
  | cons sector path ih =>
    obtain ⟨hhere, hrest⟩ := List.forall_mem_cons.mp h
    have hjoined : joined bytes sectorSize (sector :: path) =
        sectorAt bytes sectorSize sector ++ joined bytes sectorSize path := List.flatMap_cons
    rw [hjoined, List.length_append, length_sectorAt hhere, ih hrest, List.length_cons, Nat.add_mul,
      Nat.one_mul, Nat.add_comm]

/-- A chain is of whole sectors. -/
theorem length_cfbChain (h : cfbChain bytes sectorSize fat startSector maximumSectors = .ok data) :
    sectorSize ∣ data.length := by
  obtain ⟨path, hchain, rfl⟩ := cfbChain_eq_ok h
  rw [length_joined hchain.inFile]
  exact Dvd.intro_left _ rfl

end Chain

/-! ### The header -/

/-- What the checks of the header give. -/
structure Header.Fits (header : Header) : Prop where
  view : header.view.length = 512
  size : header.sectorSize = 512 ∨ header.sectorSize = 4096

/-- A header that is read has 512 bytes, and sectors of 512 or 4096. -/
theorem readHeader_fits {header : Header} (h : readHeader bytes = .ok header) : header.Fits := by
  obtain ⟨_, hlength, h⟩ := bind_eq_ok.mp h
  obtain ⟨_, -, h⟩ := bind_eq_ok.mp h
  obtain ⟨view, hview, h⟩ := bind_eq_ok.mp h
  obtain ⟨major, -, h⟩ := bind_eq_ok.mp h
  obtain ⟨sectorShift, -, h⟩ := bind_eq_ok.mp h
  obtain ⟨byteOrder, -, h⟩ := bind_eq_ok.mp h
  obtain ⟨miniShift, -, h⟩ := bind_eq_ok.mp h
  obtain ⟨_, hsizes, h⟩ := bind_eq_ok.mp h
  obtain ⟨fatCount, -, h⟩ := bind_eq_ok.mp h
  obtain ⟨_, -, h⟩ := bind_eq_ok.mp h
  cases h
  obtain ⟨hle, rfl⟩ := boundedView_eq_ok.mp hview
  have hsize := (not_or.mp (not_or.mp (not_or.mp (failIf_eq_ok.mp hsizes)).2).2).1
  exact ⟨length_slice hle, (Decidable.not_not.mp hsize).imp And.right And.right⟩

/-- The header is read inside the file. -/
theorem contained_readHeader : Contained (readHeader bytes) := by
  refine contained_bind contained_failIf fun _ hlength => contained_bind contained_failIf fun _ _ =>
    contained_bind contained_boundedView fun view hview => ?_
  have h512 : view.length = 512 := by
    obtain ⟨hle, rfl⟩ := boundedView_eq_ok.mp hview
    exact length_slice hle
  exact contained_bind (contained_getUint16 (by omega)) fun _ _ =>
    contained_bind (contained_getUint16 (by omega)) fun _ _ =>
    contained_bind (contained_getUint16 (by omega)) fun _ _ =>
    contained_bind (contained_getUint16 (by omega)) fun _ _ =>
    contained_bind contained_failIf fun _ _ =>
    contained_bind (contained_getUint32 (by omega)) fun _ _ =>
    contained_bind contained_failIf fun _ _ => contained_ok _

/-! ### The table -/

section Table

variable {header : Header} {fatSectors fat : List ℕ}

/-- The chain of the table of sectors is read inside the file. -/
theorem contained_readDifat (hsize : 4 ≤ sectorSize) {count : ℕ} {s : Difat} :
    Contained (readDifat bytes sectorSize count s) := by
  induction count generalizing s with
  | zero => exact contained_ok _
  | succ count ih =>
    refine contained_bind contained_failIf fun _ _ =>
      contained_bind contained_cfbSector fun view hview => ?_
    have hlength := length_cfbSector hview
    refine contained_bind (contained_readEach fun item hitem => contained_getUint32 ?_) fun _ _ =>
      contained_bind (contained_getUint32 (by omega)) fun _ _ => ih
    have := List.mem_range.mp hitem
    omega

/-- The sectors of the table are found inside the file. -/
theorem contained_readFatSectors (h : header.Fits) : Contained (readFatSectors bytes header) := by
  have hview := h.view
  have hsize : 4 ≤ header.sectorSize := by rcases h.size with h | h <;> omega
  refine contained_bind (contained_readEach fun index hindex => contained_getUint32 ?_) fun _ _ =>
    contained_bind (contained_getUint32 (by omega)) fun _ _ =>
    contained_bind (contained_getUint32 (by omega)) fun _ _ =>
    contained_bind (contained_readDifat hsize) fun _ _ =>
    contained_bind contained_failIf fun _ _ => contained_bind contained_failIf fun _ _ =>
      contained_ok _
  have := List.mem_range.mp hindex
  omega

/-- The sectors of the table are distinct. -/
theorem readFatSectors_nodup (h : readFatSectors bytes header = .ok fatSectors) :
    fatSectors.Nodup := by
  obtain ⟨values, -, h⟩ := bind_eq_ok.mp h
  obtain ⟨difatCount, -, h⟩ := bind_eq_ok.mp h
  obtain ⟨difatSector, -, h⟩ := bind_eq_ok.mp h
  obtain ⟨s, -, h⟩ := bind_eq_ok.mp h
  obtain ⟨_, -, h⟩ := bind_eq_ok.mp h
  obtain ⟨_, hnodup, h⟩ := bind_eq_ok.mp h
  cases h
  exact Decidable.not_not.mp (failIf_eq_ok.mp hnodup)

/-- The sectors of the table are read as numbers. -/
theorem contained_readSectors (hsize : sectorSize % 4 = 0) :
    Contained (readSectors bytes sectorSize fatSectors) := by
  induction fatSectors with
  | nil => exact contained_ok _
  | cons sector rest ih =>
    refine contained_bind contained_cfbSector fun data hdata => contained_bind ?_ fun _ _ =>
      contained_bind ih fun _ _ => contained_ok _
    exact contained_readNumbers (by rw [length_cfbSector hdata, hsize])

/-- The sectors that are read are inside the file. -/
theorem readSectors_inFile (h : readSectors bytes sectorSize fatSectors = .ok fat) :
    ∀ sector ∈ fatSectors, InFile bytes sectorSize sector := by
  induction fatSectors generalizing fat with
  | nil => exact nofun
  | cons sector rest ih =>
    obtain ⟨data, hdata, h⟩ := bind_eq_ok.mp h
    obtain ⟨numbers, -, h⟩ := bind_eq_ok.mp h
    obtain ⟨more, hmore, -⟩ := bind_eq_ok.mp h
    exact List.forall_mem_cons.mpr ⟨(cfbSector_eq_ok hdata).1, ih hmore⟩

/-- The table is read inside the file. -/
theorem contained_readFat (h : header.Fits) :
    Contained (readFat bytes header.sectorSize fatSectors) := by
  have hsize : header.sectorSize % 4 = 0 := by rcases h.size with h | h <;> rw [h]
  exact contained_bind (contained_readSectors hsize) fun _ _ =>
    contained_bind contained_failIf fun _ _ => contained_ok _

/-- The sectors of the table are distinct sectors of the file, and it marks them as its own. -/
structure Marked (bytes : List UInt8) (sectorSize : ℕ) (fatSectors fat : List ℕ) : Prop where
  nodup : fatSectors.Nodup
  inFile : ∀ sector ∈ fatSectors, InFile bytes sectorSize sector
  marked : ∀ sector ∈ fatSectors, fat[sector]? = some CFB_FAT_SECTOR

/-- A table that is read marks its own sectors. -/
theorem readFat_marked (hsectors : readFatSectors bytes header = .ok fatSectors)
    (h : readFat bytes sectorSize fatSectors = .ok fat) :
    Marked bytes sectorSize fatSectors fat := by
  obtain ⟨fat', hread, h⟩ := bind_eq_ok.mp h
  obtain ⟨_, hmarks, h⟩ := bind_eq_ok.mp h
  cases h
  refine ⟨readFatSectors_nodup hsectors, readSectors_inFile hread, fun sector hmem => ?_⟩
  have hany := failIf_eq_ok.mp hmarks
  rw [List.any_eq_true] at hany
  by_contra hne
  exact hany ⟨sector, hmem, decide_eq_true hne⟩

end Table

/-! ### The stream of the workbook -/

section Stream

variable {header : Header} {fat miniFat : List ℕ} {miniStream stream : List UInt8}
  {root workbook entry : DirectoryEntry}

/-- A visit reads the mini sectors inside their stream. -/
theorem contained_visitMiniSector : Contained (visitMiniSector miniFat miniStream seen sector) := by
  refine contained_bind contained_failIf fun _ hguard => contained_bind contained_failIf fun _ _ =>
    contained_bind ?_ fun _ _ => contained_ok _
  have hlt : sector < miniFat.length := Nat.not_le.mp (not_or.mp (failIf_eq_ok.mp hguard)).1
  rw [List.getElem?_eq_getElem hlt]
  exact contained_ok _

/-- What a visit of a mini sector has tested. -/
theorem visitMiniSector_guarded : Walk.Guarded (visitMiniSector miniFat miniStream)
    (fun sector => sector < miniFat.length ∧ sector * 64 + 64 ≤ miniStream.length)
    (fun sector => miniFat[sector]?) (miniSectorAt miniStream) := by
  intro seen sector data next h
  obtain ⟨_, hguard, h⟩ := bind_eq_ok.mp h
  obtain ⟨_, hinside, h⟩ := bind_eq_ok.mp h
  obtain ⟨next', hnext, h⟩ := bind_eq_ok.mp h
  cases h
  obtain ⟨hlt, hnew⟩ := not_or.mp (failIf_eq_ok.mp hguard)
  exact ⟨hnew, ⟨Nat.not_le.mp hlt, Nat.not_lt.mp (failIf_eq_ok.mp hinside)⟩,
    orThrow_eq_ok.mp hnext, rfl⟩

/-- Distinct mini sectors inside their stream that a table leads along, up to the mark of the
end. -/
structure MiniChain (miniFat : List ℕ) (miniStream : List UInt8) (startSector : ℕ)
    (path : List ℕ) : Prop where
  leads : Walk.Leads (fun sector => miniFat[sector]?) startSector path CFB_END_OF_CHAIN
  nodup : path.Nodup
  inside : ∀ sector ∈ path, sector * 64 + 64 ≤ miniStream.length

/-- The stream is a chain of sectors, cut to the size of the entry. -/
def InSectors (bytes : List UInt8) (sectorSize : ℕ) (fat : List ℕ) (entry : DirectoryEntry)
    (stream : List UInt8) : Prop :=
  ∃ path, Chain bytes sectorSize fat entry.startSector path ∧
    stream = (joined bytes sectorSize path).take entry.size

/-- The stream is a chain of mini sectors of the stream of the root, by the table that the header
leads to, cut to the size of the entry. -/
def InMiniSectors (bytes : List UInt8) (header : Header) (fat : List ℕ)
    (root entry : DirectoryEntry)
    (stream : List UInt8) : Prop :=
  ∃ miniFat miniStream path, readMiniFat bytes header fat = .ok miniFat ∧
    InSectors bytes header.sectorSize fat root miniStream ∧
    MiniChain miniFat miniStream entry.startSector path ∧
    stream = (path.flatMap (miniSectorAt miniStream)).take entry.size

/-- A stream that is read is a chain, cut to its size. -/
theorem readStream_eq_ok (h : readStream bytes header fat entry = .ok stream) :
    InSectors bytes header.sectorSize fat entry stream := by
  obtain ⟨chain, hchain, h⟩ := bind_eq_ok.mp h
  cases h
  obtain ⟨path, hpath, rfl⟩ := cfbChain_eq_ok hchain
  exact ⟨path, hpath, rfl⟩

/-- A small stream that is read is a chain of mini sectors, cut to its size. -/
theorem readMiniStream_eq_ok (h : readMiniStream bytes header fat root entry = .ok stream) :
    InMiniSectors bytes header fat root entry stream := by
  obtain ⟨miniFat, htable, h⟩ := bind_eq_ok.mp h
  obtain ⟨miniStream, hmini, h⟩ := bind_eq_ok.mp h
  obtain ⟨s, hwalk, h⟩ := bind_eq_ok.mp h
  cases h
  obtain ⟨hleads, hnodup, hvalid, hpieces⟩ := Walk.walk_ok visitMiniSector_guarded hwalk
  exact ⟨miniFat, miniStream, s.seen, htable, readStream_eq_ok hmini,
    ⟨hleads, hnodup, fun sector hmem => (hvalid sector hmem).2⟩,
    by rw [hpieces, ← List.flatMap_def]; rfl⟩

/-- A stream is read inside the file. -/
theorem contained_readStream : Contained (readStream bytes header fat entry) :=
  contained_bind contained_cfbChain fun _ _ => contained_ok _

/-- The table of the mini sectors is read inside the file. -/
theorem contained_readMiniFat (h : header.Fits) : Contained (readMiniFat bytes header fat) := by
  have hview := h.view
  refine contained_bind (contained_getUint32 (by omega)) fun _ _ =>
    contained_bind contained_failIf fun _ _ =>
    contained_bind (contained_getUint32 (by omega)) fun _ _ =>
    contained_bind contained_cfbChain fun miniFatBytes hchain => contained_readNumbers ?_
  have hdvd := length_cfbChain hchain
  rcases h.size with hsize | hsize <;> rw [hsize] at hdvd <;> omega

/-- A small stream is read inside the stream of the root. -/
theorem contained_readMiniStream (h : header.Fits) :
    Contained (readMiniStream bytes header fat root entry) :=
  contained_bind (contained_readMiniFat h) fun _ _ => contained_bind contained_readStream fun _ _ =>
    contained_bind (fun _ h => Walk.walk_error visitMiniSector_guarded (fun _ h => h.1)
      (fun _ _ e h => contained_visitMiniSector e h) (Nat.lt_succ_self _) h) fun _ _ =>
        contained_ok _

/-- **The stream of the workbook** is a chain, cut to its size. -/
theorem readWorkbook_eq_ok (h : readWorkbook bytes header fat root workbook = .ok stream) :
    (InSectors bytes header.sectorSize fat workbook stream ∨
        InMiniSectors bytes header fat root workbook stream) ∧
      stream.length = workbook.size := by
  obtain ⟨miniCutoff, -, h⟩ := bind_eq_ok.mp h
  obtain ⟨workbookBytes, hread, h⟩ := bind_eq_ok.mp h
  obtain ⟨_, hlength, h⟩ := bind_eq_ok.mp h
  cases h
  refine ⟨?_, Decidable.not_not.mp (failIf_eq_ok.mp hlength)⟩
  unfold readStreamOf at hread
  split at hread
  · exact Or.inl (readStream_eq_ok hread)
  · exact Or.inr (readMiniStream_eq_ok hread)

/-- The stream of the workbook is read inside the file. -/
theorem contained_readWorkbook (h : header.Fits) :
    Contained (readWorkbook bytes header fat root workbook) := by
  have hview := h.view
  refine contained_bind (contained_getUint32 (by omega)) fun _ _ => contained_bind ?_ fun _ _ =>
    contained_bind contained_failIf fun _ _ => contained_ok _
  exact contained_ite (fun _ => contained_readStream) fun _ => contained_readMiniStream h

end Stream

end MailPortal.Documents
