import MailPortal.Lib.Replace
import MailPortal.Lib.Windows
import MailPortal.Lib.Words
import MailPortal.Platform.Text

/-!
# Excerpts of a Text

Messages and attachments are found by the meaning of their excerpts. An excerpt is cut out of a text
by its places and loses the white space at its ends; a place of the text that is in the excerpt
before is in it still, unless there is white space at that place.

Main results:

* `Holds.part` : what is taken off the two ends of an excerpt does not matter to a place that holds
  something else.
* `holds_slice`, `Holds.trim` : the excerpts that are cut out and trimmed.
-/

namespace MailPortal.Semantic

open Utf16

variable {excerpt : Units}

abbrev LF : UInt16 := 0x0A

abbrev CR : UInt16 := 0x0D

abbrev SPACE : UInt16 := 0x20

/-- A chunk that is indexed. -/
structure SemanticChunk where
  ordinal : ℕ
  embeddingText : Units
  excerpt : Units
  deriving DecidableEq

/-! ### Regular expressions -/

/-- A class of code units, by its ranges. -/
def inRanges (ranges : List (ℕ × ℕ)) (u : UInt16) : Bool :=
  ranges.any fun range => range.1 ≤ u.toNat && u.toNat ≤ range.2

/-- `[ \t]` -/
def isBlankUnit (u : UInt16) : Bool := u = SPACE || u = 0x09

/-- `replace(/\r\n?/g, "\n")` -/
def lineFeeds (value : Units) : Units :=
  Replace.replaceAll (fun
    | [] => none
    | u :: rest =>
      if u = CR then some ([LF], if rest.head? = some LF then 1 else 0) else none) value

/-- `replace(/[ \t]+/g, " ")` -/
def singleBlanks (value : Units) : Units :=
  Replace.replaceAll (fun
    | [] => none
    | u :: rest =>
      if isBlankUnit u then some ([SPACE], (rest.takeWhile isBlankUnit).length) else none) value

/-- `replace(/\n{most + 1,}/g, "\n".repeat(most))` -/
def fewerLineFeeds (most : ℕ) (value : Units) : Units :=
  Replace.replaceAll (fun
    | [] => none
    | u :: rest =>
      let more := (rest.takeWhile fun v => v = LF).length
      if u = LF ∧ most ≤ more then some (List.replicate most LF, more) else none) value

/-- `trim()` -/
def trim (value : Units) : Units := Words.trimBoth isSpaceUnit value

/-- `lastIndexOf(unit, place)`, where -1 is `none`. -/
def lastIndexOf (unit : UInt16) (value : Units) : ℕ → Option ℕ
  | 0 => if value[0]? = some unit then some 0 else none
  | place + 1 =>
    if value[place + 1]? = some unit then some (place + 1) else lastIndexOf unit value place

/-- `slice(window.1, window.2)` -/
def slice (value : Units) (window : ℕ × ℕ) : Units := (value.take window.2).drop window.1

/-! ### Places in an excerpt -/

/-- The excerpt stands in the text, and the place is in it. -/
def Holds (text excerpt : Units) (i : ℕ) : Prop :=
  ∃ before after, text = before ++ excerpt ++ after ∧ before.length ≤ i ∧
    i < before.length + excerpt.length

variable {text : Units} {i : ℕ} {u : UInt16}

/-- **What is taken off the two ends** of an excerpt does not matter to what is not in it. -/
theorem Holds.part {front middle back : Units} (h : Holds text (front ++ middle ++ back) i)
    (hu : text[i]? = some u) (hfront : u ∉ front) (hback : u ∉ back) : Holds text middle i := by
  obtain ⟨before, after, htext, hfrom, hto⟩ := h
  rw [List.length_append, List.length_append] at hto
  refine ⟨before ++ front, back ++ after, ?_, ?_, ?_⟩
  · simpa only [List.append_assoc] using htext
  · by_contra hlt
    rw [List.length_append, Nat.not_le] at hlt
    have hat : text[i]? = front[i - before.length]? := by
      rw [htext, List.append_assoc, List.getElem?_append_right hfrom, List.append_assoc,
        List.append_assoc, List.getElem?_append_left (by omega)]
    exact hfront (List.mem_of_getElem? (hat.symm.trans hu))
  · by_contra hle
    rw [List.length_append, Nat.not_lt] at hle
    have hat : text[i]? = back[i - before.length - front.length - middle.length]? := by
      rw [htext, List.append_assoc, List.getElem?_append_right hfrom, List.append_assoc,
        List.append_assoc, List.getElem?_append_right (by omega),
        List.getElem?_append_right (by omega), List.getElem?_append_left (by omega)]
    exact hback (List.mem_of_getElem? (hat.symm.trans hu))

theorem slice_append (text : Units) (window : ℕ × ℕ) (h : window.1 ≤ window.2) :
    text = text.take window.1 ++ slice text window ++ text.drop window.2 := by
  have htake : text.take window.1 = (text.take window.2).take window.1 := by
    rw [List.take_take, min_eq_left h]
  rw [slice, htake, List.take_append_drop, List.take_append_drop]

/-- A window is an excerpt of what is in it. -/
theorem holds_slice {window : ℕ × ℕ} (hfrom : window.1 ≤ i) (hto : i < window.2)
    (hlength : window.2 ≤ text.length) : Holds text (slice text window) i := by
  refine ⟨_, _, slice_append text window (hfrom.trans hto.le), ?_, ?_⟩
  · rw [List.length_take]
    omega
  · rw [slice, List.length_take, List.length_drop, List.length_take]
    omega

theorem exists_trim (value : Units) : ∃ leading trailing,
    value = leading ++ trim value ++ trailing ∧
    (∀ u ∈ leading, isSpaceUnit u = true) ∧ ∀ u ∈ trailing, isSpaceUnit u = true := by
  obtain ⟨trailing, hrest, htrailing⟩ := Words.exists_trimEnd isSpaceUnit
    (value.dropWhile isSpaceUnit)
  refine ⟨value.takeWhile isSpaceUnit, trailing, ?_, fun u hu => List.mem_takeWhile_imp hu,
    htrailing⟩
  rw [List.append_assoc, trim, Words.trimBoth, ← hrest, List.takeWhile_append_dropWhile]

/-- Only white space is trimmed. -/
theorem Holds.trim (h : Holds text excerpt i) (hu : text[i]? = some u)
    (hspace : isSpaceUnit u = false) : Holds text (trim excerpt) i := by
  obtain ⟨leading, trailing, hexcerpt, hleading, htrailing⟩ := exists_trim excerpt
  rw [hexcerpt] at h
  refine h.part hu (fun hmem => ?_) fun hmem => ?_
  · exact absurd (hleading u hmem) (Bool.eq_false_iff.mp hspace)
  · exact absurd (htrailing u hmem) (Bool.eq_false_iff.mp hspace)

/-- A place that is held is a place of the excerpt. -/
theorem Holds.ne_nil (h : Holds text excerpt i) : excerpt ≠ [] := by
  rintro rfl
  obtain ⟨before, _, -, hfrom, hto⟩ := h
  exact absurd hto (Nat.not_lt.mpr hfrom)

/-! ### Chunks -/

/-- There is white space at a place. -/
def SpaceAt (text : Units) (i : ℕ) : Prop := ∃ u, text[i]? = some u ∧ isSpaceUnit u = true

/-- **The chunks of a text**, up to a place that is reached. Windows cover the text from its front
on, each beginning in the one before or at its end. The chunks are the excerpts of windows in which
there is something, under the numbers from 0 on; and each place that is not passed over is in
one. -/
structure ChunkedTo (text : Units) (excerpt : ℕ × ℕ → Units) (passed : ℕ → Prop)
    (chunks : List SemanticChunk) (windows : List (ℕ × ℕ)) (reached : ℕ) : Prop where
  ordinals : chunks.map SemanticChunk.ordinal = List.range chunks.length
  excerpts : chunks.map SemanticChunk.excerpt =
    (windows.map excerpt).filter fun excerpt => !excerpt.isEmpty
  inside : ∀ window ∈ windows, window.1 < window.2 ∧ window.2 ≤ text.length
  covers : Windows.Covers 0 reached windows
  found : ∀ i < reached, ¬passed i → ∃ chunk ∈ chunks, Holds text chunk.excerpt i

/-- A cut by rules that leave no hole makes chunks of the text, if an excerpt holds what of its
window is not passed over. -/
theorem chunkedTo_cut {stop next : ℕ → ℕ} {Inv passed : ℕ → Prop} {step : ℕ} (cap : ℕ)
    {excerpt : ℕ × ℕ → Units} (embed : Units → Units)
    (rules : Windows.Rules text.length stop next Inv step) (hinv : Inv 0)
    (hholds : ∀ start, Inv start → start < text.length → ∀ i, start ≤ i → i < stop start →
      ¬passed i → Holds text (excerpt (start, stop start)) i)
    {chunks : List SemanticChunk} (hchunks : chunks = Windows.cut text.length cap stop next excerpt
      (fun ordinal excerpt => ⟨ordinal, embed excerpt, excerpt⟩) 0 []) :
    ∃ reached, ChunkedTo text excerpt passed chunks
        (Windows.windowsFrom text.length cap stop next excerpt 0 0) reached ∧
      (∀ window ∈ Windows.windowsFrom text.length cap stop next excerpt 0 0,
        ∃ start, Inv start ∧ start < text.length ∧ window = (start, stop start)) ∧
      (reached = text.length ∨ reached ≤ text.length ∧ step * cap ≤ reached ∧
        cap ≤ chunks.length) := by
  obtain ⟨reached, hpieces, hcovers, hwindows, hreached⟩ := Windows.cut_windows cap excerpt
    (fun ordinal excerpt => (⟨ordinal, embed excerpt, excerpt⟩ : SemanticChunk)) [] rules hinv
    le_rfl (Nat.zero_le _) (Nat.mul_zero step).le
  rw [← hchunks] at hreached
  rw [← hchunks, List.nil_append, List.length_nil] at hpieces
  refine ⟨reached, ⟨?_, ?_, ?_, hcovers, ?_⟩, hwindows, hreached⟩
  · rw [hpieces, Windows.numbers_piecesOf fun _ _ => rfl, ← List.range_eq_range']
  · rw [hpieces, Windows.map_piecesOf fun _ _ => rfl]
  · intro window hwindow
    obtain ⟨start, hstart, hlt, rfl⟩ := hwindows window hwindow
    exact ⟨rules.lt_stop start hstart hlt, rules.stop_le start hstart hlt⟩
  · intro i hi hpassed
    obtain ⟨window, hwindow, hfrom, hto⟩ := hcovers.exists_mem (Nat.zero_le i) hi
    obtain ⟨start, hstart, hlt, rfl⟩ := hwindows window hwindow
    have hin := hholds start hstart hlt i hfrom hto hpassed
    obtain ⟨ordinal, hmem⟩ := Windows.exists_piece (fun ordinal excerpt =>
      (⟨ordinal, embed excerpt, excerpt⟩ : SemanticChunk)) 0 hwindow hin.ne_nil
    exact ⟨_, hpieces ▸ hmem, hin⟩

end MailPortal.Semantic
