import MailPortal.Semantic.AttachmentText
import MailPortal.Semantic.MessageChunks

/-!
# The Excerpts of an Attachment Cover its Text

A window of an attachment's text ends between two characters, and not in front of a combining mark;
for this it gives up 130 code units at most, since no more than 64 marks stand side by side. So each
window begins 1200 units behind the one before at least, and 40 windows are enough for 48000 units.

Main results:

* `le_clusterBoundary` : what a window gives up.
* `attachmentRules` : windows leave no hole, and begin and end between two characters.
* `chunks_cover_text` : an attachment's text is covered, and when a message's is.
* `pair_cut_apart` : a message with a window that ends inside a pair.
-/

namespace MailPortal.Semantic

open Documents Failure Utf16 SEMANTIC_ATTACHMENT_LIMITS

variable {unicode : UnicodeClasses} {text : Units} {start place : ℕ}
variable {stop : ℕ}
variable {window : ℕ × ℕ}

/-! ### Characters at places -/

/-- The characters before a window, of it and behind it. -/
theorem characters_slice (window : ℕ × ℕ) (hle : window.1 ≤ window.2)
    (hfrom : insidePair text window.1 = false) (hto : insidePair text window.2 = false) :
    characters text = characters (text.take window.1) ++
      (characters (slice text window) ++ characters (text.drop window.2)) := by
  have htake : (text.take window.2).take window.1 = text.take window.1 := by
    rw [List.take_take, min_eq_left hle]
  rw [characters_split hto, characters_split (insidePair_take hfrom), htake, slice,
    List.append_assoc]

section

variable (h : place < text.length)
include h

/-- Inside the text a character begins at each place. -/
theorem characters_at : characters (text.drop place) =
    scalarAt text place :: characters (text.drop (place + (scalarAt text place).length)) := by
  have hne : text.drop place ≠ [] := List.ne_nil_of_length_pos (by rw [List.length_drop]; omega)
  obtain ⟨c, cs, hcs⟩ := List.exists_cons_of_ne_nil (characters_ne_nil hne)
  have hscalar : scalarAt text place = c := by rw [scalarAt, hcs]; rfl
  rw [hscalar, hcs, ← List.drop_drop, characters_drop hcs]

theorem scalarWidthAt_eq : scalarWidthAt text place = (scalarAt text place).length := by
  have hmem : scalarAt text place ∈ characters (text.drop place) :=
    characters_at h ▸ List.mem_cons_self
  rw [scalarWidthAt]
  rcases length_character hmem with hlength | hlength
  · rw [hlength, if_neg (by decide)]
  · rw [hlength, if_pos rfl]

/-- The width of a character is two where a pair begins, and one elsewhere. -/
theorem scalarWidthAt_cases :
    scalarWidthAt text place = 2 ∧ insidePair text (place + 1) = true ∨
      scalarWidthAt text place = 1 ∧ insidePair text (place + 1) = false := by
  have hunits : ∀ n, text[place + n]? = (text.drop place)[n]? := fun n => List.getElem?_drop.symm
  have hpair : insidePair text (place + 1) =
      (((text.drop place)[0]?).any isHigh && ((text.drop place)[1]?).any isLow) := by
    rw [insidePair, hunits 1, ← hunits 0, Nat.add_zero]
  rw [scalarWidthAt, scalarAt, hpair]
  cases hdrop : text.drop place with
  | nil => exact absurd (List.drop_eq_nil_iff.mp hdrop) (Nat.not_le.mpr h)
  | cons u rest =>
    cases rest with
    | nil => exact .inr ⟨rfl, Bool.and_false _⟩
    | cons v rest =>
      rw [characters]
      by_cases hboth : isHigh u = true ∧ isLow v = true
      · rw [if_pos hboth]
        exact .inl ⟨rfl, Bool.and_eq_true_iff.mpr hboth⟩
      · rw [if_neg hboth]
        exact .inr ⟨rfl, Bool.eq_false_iff.mpr (mt Bool.and_eq_true_iff.mp hboth)⟩

/-- Behind a character there is a place between two characters. -/
theorem insidePair_add_width : insidePair text (place + scalarWidthAt text place) = false := by
  rcases scalarWidthAt_cases h with ⟨hwidth, hpair⟩ | ⟨hwidth, hpair⟩
  · rw [hwidth]
    exact (insidePair_next hpair).2
  · rw [hwidth]
    exact hpair

end

/-- The character before a place begins between two characters, and ends at the place. -/
theorem previousScalarStart_spec (hpos : 0 < place) (hle : place ≤ text.length)
    (hplace : insidePair text place = false) :
    previousScalarStart text place < place ∧
      insidePair text (previousScalarStart text place) = false ∧
      previousScalarStart text place + scalarWidthAt text (previousScalarStart text place) =
        place := by
  rw [previousScalarStart]
  split
  · rename_i hpair
    have htwo : 2 ≤ place := by
      by_contra hlt
      rw [show place - 1 = 0 by omega] at hpair
      exact Bool.false_ne_true hpair
    have hsame : place - 1 - 1 + 1 = place - 1 := by omega
    rcases scalarWidthAt_cases (show place - 1 - 1 < text.length by omega) with h | h
    · exact ⟨by omega, (insidePair_next hpair).1, by omega⟩
    · rw [hsame, hpair] at h
      exact absurd h.2.symm Bool.false_ne_true
  · rename_i hpair
    have hsame : place - 1 + 1 = place := by omega
    rcases scalarWidthAt_cases (show place - 1 < text.length by omega) with h | h
    · rw [hsame, hplace] at h
      exact absurd h.2 Bool.false_ne_true
    · exact ⟨by omega, Bool.not_eq_true _ ▸ hpair, by omega⟩

/-! ### Going back over combining marks -/

variable (unicode start) in
/-- The place that the loop leaves is between two characters, and not in front of a mark unless it
is the start. -/
theorem clusterBoundary_spec (hle : place ≤ text.length) (hplace : insidePair text place = false) :
    clusterBoundary unicode text start place ≤ place ∧
      insidePair text (clusterBoundary unicode text start place) = false ∧
      (clusterBoundary unicode text start place ≤ start ∨
        isCombiningMarkAt unicode text (clusterBoundary unicode text start place) = false) := by
  induction place using clusterBoundary.induct unicode text start with
  | case1 place h ih =>
    obtain ⟨hlt, hprevious, -⟩ := previousScalarStart_spec (by omega) hle hplace
    obtain ⟨hcluster, hpair, hmark⟩ := ih (by omega) hprevious
    rw [clusterBoundary, if_pos h]
    exact ⟨hcluster.trans hlt.le, hpair, hmark⟩
  | case2 place h =>
    rw [clusterBoundary, if_neg h]
    refine ⟨le_rfl, hplace, ?_⟩
    rw [not_and_or, Nat.not_lt, Bool.not_eq_true] at h
    exact h

theorem combiningMark_of_at (h : isCombiningMarkAt unicode text place = true) :
    unicode.combiningMark (scalarAt text place) = true := (Bool.and_eq_true_iff.mp h).2

/-- A window that goes on to the next place between two characters has one character more. -/
theorem characters_slice_next (hle : start ≤ place) (hlt : place < text.length)
    (hstart : insidePair text start = false) (hplace : insidePair text place = false)
    (hstop : place + scalarWidthAt text place = stop) :
    characters (slice text (start, stop)) =
      characters (slice text (start, place)) ++ [scalarAt text place] := by
  have hwider : insidePair text stop = false := hstop ▸ insidePair_add_width hlt
  have hnext : characters (text.drop place) =
      scalarAt text place :: characters (text.drop stop) := by
    rw [characters_at hlt, ← scalarWidthAt_eq hlt, hstop]
  have hsame := characters_slice (start, stop) (by omega) hstart hwider
  rw [characters_slice (start, place) hle hstart hplace] at hsame
  have hbehind := List.append_cancel_left hsame
  dsimp only at hbehind
  rw [hnext, ← List.singleton_append, ← List.append_assoc] at hbehind
  exact (List.append_cancel_right hbehind).symm

/-- What it goes back over is one character and marks behind it. -/
theorem clusterBoundary_run (hle : place ≤ text.length) (hplace : insidePair text place = false)
    (hlt : clusterBoundary unicode text start place < place) :
    ∃ first marks, characters (slice text (clusterBoundary unicode text start place, place)) =
      first :: marks ∧ ∀ m ∈ marks, unicode.combiningMark m = true := by
  induction place using clusterBoundary.induct unicode text start with
  | case1 place h ih =>
    obtain ⟨hbefore, hpair, hwidth⟩ := previousScalarStart_spec (by omega) hle hplace
    have hstep : clusterBoundary unicode text start place =
        clusterBoundary unicode text start (previousScalarStart text place) := by
      rw [clusterBoundary, if_pos h]
    obtain ⟨hcluster, hfront, -⟩ := clusterBoundary_spec unicode start
      (hbefore.le.trans hle) hpair
    rw [hstep, characters_slice_next hcluster (by omega) hfront hpair hwidth]
    rcases hcluster.lt_or_eq with hmore | hdone
    · obtain ⟨first, marks, hchars, hmarks⟩ := ih (hbefore.le.trans hle) hpair hmore
      -- the loop went on from the character before, which therefore is a mark
      have hmark : isCombiningMarkAt unicode text (previousScalarStart text place) = true := by
        by_contra hnone
        rw [clusterBoundary, if_neg fun h => hnone h.2] at hmore
        exact absurd hmore (lt_irrefl _)
      refine ⟨first, marks ++ [scalarAt text (previousScalarStart text place)], ?_, ?_⟩
      · rw [hchars, List.cons_append]
      · intro m hm
        rcases List.mem_append.mp hm with hm | hm
        · exact hmarks m hm
        · exact List.mem_singleton.mp hm ▸ combiningMark_of_at hmark
    · refine ⟨scalarAt text (previousScalarStart text place), [], ?_,
        nofun⟩
      have hnil : slice text
          (previousScalarStart text place, previousScalarStart text place) = [] :=
        List.drop_eq_nil_of_le (List.length_take_le _ _)
      rw [hdone, hnil]
      rfl
  | case2 place h =>
    rw [clusterBoundary, if_neg h] at hlt
    exact absurd hlt (lt_irrefl _)

variable (start) in
/-- **A window gives up 130 code units at most**, in a text with no more than 64 marks side by
side. -/
theorem le_clusterBoundary (h : assertSemanticAttachmentText unicode text = .ok ())
    (hle : place ≤ text.length) (hplace : insidePair text place = false) :
    place ≤ clusterBoundary unicode text start place + 130 := by
  obtain ⟨hback, hfront, -⟩ := clusterBoundary_spec unicode start hle hplace
  rcases hback.lt_or_eq with hlt | hsame
  · obtain ⟨first, marks, hchars, hmarks⟩ := clusterBoundary_run hle hplace hlt
    have htext := characters_slice (clusterBoundary unicode text start place, place) hback hfront
      hplace
    rw [hchars, List.cons_append, ← List.singleton_append, ← List.append_assoc] at htext
    have hrun := run_le h htext hmarks
    have hlength : (slice text (clusterBoundary unicode text start place, place)).length ≤
        2 * (characters (slice text (clusterBoundary unicode text start place, place))).length :=
      length_le_two_mul _
    rw [hchars, List.length_cons, slice, List.length_drop, List.length_take, min_eq_left hle]
      at hlength
    omega
  · omega

/-! ### Where windows end -/

variable (unicode) in
/-- There is no mark where there is a space. -/
theorem not_mark_of_space (h : text[place]? = some SPACE) :
    insidePair text place = false ∧ isCombiningMarkAt unicode text place = false := by
  have hscalar : scalarAt text place = [SPACE] := by
    obtain ⟨hlt, hunit⟩ := List.getElem?_eq_some_iff.mp h
    rw [scalarAt, List.drop_eq_getElem_cons hlt, hunit, characters_cons (.inl rfl)]
    rfl
  refine ⟨insidePair_of_not_low h rfl, ?_⟩
  rw [isCombiningMarkAt, hscalar, unicode.space_not_mark, Bool.and_false]

/-- What a window ends with. -/
structure EndsWell (unicode : UnicodeClasses) (text : Units) (start stop : ℕ) : Prop where
  lt : start < stop
  le : stop ≤ text.length
  between : insidePair text stop = false
  advance : stop < text.length → start + 1200 ≤ stop
  no_mark : stop < text.length → isCombiningMarkAt unicode text stop = false

theorem pairEnd_cases (text : Units) (start : ℕ) : insidePair text (pairEnd text start) = false ∧
    (pairEnd text start = text.length ∧ text.length ≤ start + 1400 ∨
      pairEnd text start < text.length ∧ start + 1399 ≤ pairEnd text start ∧
        hardEnd text start = start + 1400) := by
  have hchunk : chunkChars = 1400 := rfl
  rw [pairEnd, hardEnd]
  split
  · rename_i h
    exact ⟨(insidePair_next h.2).1, .inr (by omega)⟩
  · rename_i h
    by_cases hlt : min (start + chunkChars) text.length < text.length
    · exact ⟨Bool.eq_false_iff.mpr fun hpair => h ⟨hlt, hpair⟩, .inr (by omega)⟩
    · have hend : min (start + chunkChars) text.length = text.length := by omega
      rw [hend]
      exact ⟨insidePair_length text, .inl (by omega)⟩

variable (unicode) in
/-- The end at a space is between two characters; without a space it is the end itself. -/
theorem spaceEnd_cases (minimumEnd : ℕ) (hstop : insidePair text stop = false) :
    insidePair text (spaceEnd text minimumEnd stop) = false ∧
      (spaceEnd text minimumEnd stop = stop ∨ minimumEnd ≤ spaceEnd text minimumEnd stop ∧
        spaceEnd text minimumEnd stop ≤ stop ∧
        isCombiningMarkAt unicode text (spaceEnd text minimumEnd stop) = false) := by
  rw [spaceEnd]
  split
  · rename_i boundary hboundary
    obtain ⟨hle, hspace⟩ := lastIndexOf_le hboundary
    obtain ⟨hpair, hmark⟩ := not_mark_of_space unicode hspace
    split
    · rename_i hlate
      exact ⟨hpair, .inr ⟨hlate, hle, hmark⟩⟩
    · exact ⟨hstop, .inl rfl⟩
  · exact ⟨hstop, .inl rfl⟩

/-- **A window ends** between two characters and not in front of a mark. -/
theorem attachmentEnd_endsWell (h : assertSemanticAttachmentText unicode text = .ok ())
    (hstart : start < text.length) :
    EndsWell unicode text start (attachmentEnd unicode text start) := by
  obtain ⟨hpair, ⟨hend, hlength⟩ | ⟨hlt, hlate, hhard⟩⟩ := pairEnd_cases text start
  · have hstop : attachmentEnd unicode text start = text.length := by
      rw [attachmentEnd, if_neg (by omega), hend]
    rw [hstop]
    exact ⟨hstart, le_rfl, insidePair_length text, fun h => absurd h (lt_irrefl _),
      fun h => absurd h (lt_irrefl _)⟩
  · have hminimum : min (start + minimumAdvance) (hardEnd text start) = start + 1200 := by
      rw [hhard]
      exact min_eq_left (Nat.add_le_add_left (by decide) start)
    obtain ⟨hspace, hcases⟩ := spaceEnd_cases unicode (start + 1200) hpair
    have hstop : attachmentEnd unicode text start =
        if clusterBoundary unicode text start
            (spaceEnd text (start + 1200) (pairEnd text start)) ≥ start + 1200 then
          clusterBoundary unicode text start (spaceEnd text (start + 1200) (pairEnd text start))
        else spaceEnd text (start + 1200) (pairEnd text start) := by
      rw [attachmentEnd, hminimum, if_pos hlt]
    generalize spaceEnd text (start + 1200) (pairEnd text start) = stop at hspace hcases hstop
    have hle : stop ≤ text.length := by omega
    obtain ⟨hback, hcluster, hmark⟩ := clusterBoundary_spec unicode start hle hspace
    have hgiven := le_clusterBoundary start h hle hspace
    rw [hstop]
    split
    · rename_i hkept
      refine ⟨by omega, by omega, hcluster, fun _ => hkept, fun _ => hmark.resolve_left (by omega)⟩
    · rename_i hgone
      rcases hcases with hsame | ⟨hfar, hbefore, hnone⟩
      · omega
      · exact ⟨by omega, hle, hspace, fun _ => hfar, fun _ => hnone⟩

/-! ### Where the next one begins -/

/-- The marks that are passed over end before the window does. -/
theorem skipMarks_spec (hplace : insidePair text place = false) (hle : place ≤ stop)
    (hstop : insidePair text stop = false) (hmark : isCombiningMarkAt unicode text stop = false) :
    place ≤ skipMarks unicode text place ∧ skipMarks unicode text place ≤ stop ∧
      insidePair text (skipMarks unicode text place) = false := by
  induction place using skipMarks.induct unicode text with
  | case1 place h ih =>
    have hne : place ≠ stop := fun hsame => by
      rw [hsame, hmark] at h
      exact Bool.false_ne_true h.2
    have hnext : place + scalarWidthAt text place ≤ stop := by
      rcases scalarWidthAt_cases h.1 with ⟨hwidth, hpair⟩ | ⟨hwidth, -⟩
      · have hinside : place + 1 ≠ stop := fun hsame => by
          rw [hsame, hstop] at hpair
          exact Bool.false_ne_true hpair
        omega
      · omega
    obtain ⟨hfrom, hto, hbetween⟩ := ih (insidePair_add_width h.1) hnext
    rw [skipMarks, if_pos h]
    exact ⟨(Nat.le_add_right _ _).trans hfrom, hto, hbetween⟩
  | case2 place h =>
    rw [skipMarks, if_neg h]
    exact ⟨le_rfl, hle, hplace⟩

/-- **The next window** begins 1200 units further on at least, before the end of this one or there,
and between two characters. -/
theorem attachmentStart_spec (hstop : attachmentEnd unicode text start = stop)
    (hends : EndsWell unicode text start stop) (hinside : stop < text.length) :
    start + 1200 ≤ attachmentStart unicode text start ∧ attachmentStart unicode text start ≤ stop ∧
      insidePair text (attachmentStart unicode text start) = false := by
  have hadvance := hends.advance hinside
  have hminimum : min (start + minimumAdvance) stop = start + 1200 :=
    min_eq_left (show start + 1200 ≤ stop from hadvance)
  have hnext : ∃ next, attachmentStart unicode text start = skipMarks unicode text next ∧
      start + 1200 ≤ next ∧ next ≤ stop ∧ insidePair text next = false := by
    have hbounds : start + 1200 ≤ max (stop - chunkOverlapChars) (start + 1200) ∧
        max (stop - chunkOverlapChars) (start + 1200) ≤ stop :=
      ⟨le_max_right _ _, max_le (Nat.sub_le _ _) hadvance⟩
    refine ⟨_, rfl, ?_⟩
    rw [hstop, hminimum]
    generalize max (stop - chunkOverlapChars) (start + 1200) = next at hbounds ⊢
    split
    · rename_i hpair
      obtain ⟨hbefore, hbehind⟩ := insidePair_next hpair
      have hne : next ≠ stop := fun hsame => by
        rw [hsame, hends.between] at hpair
        exact Bool.false_ne_true hpair
      split
      · exact ⟨by omega, by omega, hbefore⟩
      · exact ⟨by omega, by omega, hbehind⟩
    · rename_i hpair
      exact ⟨hbounds.1, hbounds.2, Bool.eq_false_iff.mpr hpair⟩
  obtain ⟨next, hskip, hfrom, hto, hbetween⟩ := hnext
  obtain ⟨hle, hskipped, hpair⟩ := skipMarks_spec hbetween hto hends.between
    (hends.no_mark hinside)
  rw [hskip]
  exact ⟨hfrom.trans hle, hskipped, hpair⟩

theorem attachmentRules (h : assertSemanticAttachmentText unicode text = .ok ()) :
    Windows.Rules text.length (attachmentEnd unicode text) (attachmentStart unicode text)
      (fun start => insidePair text start = false) 1200 where
  stop_le _ _ hstart := (attachmentEnd_endsWell h hstart).le
  lt_stop _ _ hstart := (attachmentEnd_endsWell h hstart).lt
  next_le _ _ hstart hinside :=
    (attachmentStart_spec rfl (attachmentEnd_endsWell h hstart) hinside).2.1
  inv start _ hstart hinside := by
    obtain ⟨hfrom, -, hbetween⟩ :=
      attachmentStart_spec rfl (attachmentEnd_endsWell h hstart) hinside
    rwa [max_eq_left (by omega)]
  step_le start _ hstart hinside :=
    (attachmentStart_spec rfl (attachmentEnd_endsWell h hstart) hinside).1.trans (le_max_left _ _)

/-! ### What an excerpt holds -/

/-- The character that a place is in is a combining mark. -/
def MarkAt (unicode : UnicodeClasses) (text : Units) (i : ℕ) : Prop :=
  ∃ front mark back, characters text = front ++ mark :: back ∧
    unicode.combiningMark mark = true ∧ front.flatten.length ≤ i ∧
      i < front.flatten.length + mark.length

theorem exists_character {cs : List Units} {i : ℕ} (h : i < cs.flatten.length) :
    ∃ front c back, cs = front ++ c :: back ∧ front.flatten.length ≤ i ∧
      i < front.flatten.length + c.length := by
  induction cs generalizing i with
  | nil => exact absurd h (Nat.not_lt_zero _)
  | cons c cs ih =>
    rw [List.flatten_cons, List.length_append] at h
    by_cases hin : i < c.length
    · exact ⟨[], c, cs, rfl, Nat.zero_le _, (Nat.zero_add _).symm ▸ hin⟩
    · obtain ⟨front, d, back, rfl, hfrom, hto⟩ := ih (i := i - c.length) (by omega)
      refine ⟨c :: front, d, back, rfl, ?_, ?_⟩ <;>
        rw [List.flatten_cons, List.length_append] <;> omega

/-- White space is no half of a pair. -/
theorem not_surrogate_of_space {u : UInt16} (h : isSpaceUnit u = true) :
    isHigh u = false ∧ isLow u = false := by
  have hvalid : u.toNat.isValidChar := by
    by_contra hvalid
    rw [isSpaceUnit, Char.ofNat, dif_neg hvalid] at h
    exact absurd h (by decide)
  have hrange : u.toNat < 0xD800 ∨ 0xDFFF < u.toNat := hvalid.imp id And.left
  have hbounds : (0xD800 : UInt16).toNat = 0xD800 ∧ (0xDBFF : UInt16).toNat = 0xDBFF ∧
      (0xDC00 : UInt16).toNat = 0xDC00 ∧ (0xDFFF : UInt16).toNat = 0xDFFF := ⟨rfl, rfl, rfl, rfl⟩
  simp only [isHigh, isLow, Bool.and_eq_false_iff, decide_eq_false_iff_not,
    UInt16.le_iff_toNat_le]
  omega

theorem slice_middle (before middle behind : Units) :
    slice (before ++ middle ++ behind) (before.length, before.length + middle.length) = middle := by
  rw [slice, ← List.length_append, List.take_left, List.drop_left]

/-- What is left of a window after trimming begins and ends between two characters. -/
theorem exists_trimmed (hle : window.1 ≤ window.2) (hlength : window.2 ≤ text.length)
    (hfrom : insidePair text window.1 = false) (hto : insidePair text window.2 = false) :
    ∃ first stop, first ≤ stop ∧ stop ≤ text.length ∧
      trim (slice text window) = slice text (first, stop) ∧
      insidePair text first = false ∧ insidePair text stop = false ∧
      ∀ i, window.1 ≤ i → i < window.2 → ¬SpaceAt text i → first ≤ i ∧ i < stop := by
  obtain ⟨leading, trailing, hslice, hleading, htrailing⟩ := exists_trim (slice text window)
  have htext := slice_append text window hle
  have hbefore : (text.take window.1).length = window.1 := by
    rw [List.length_take]
    omega
  have hwindow : (slice text window).length = window.2 - window.1 := by
    rw [slice, List.length_drop, List.length_take]
    omega
  generalize trim (slice text window) = trimmed at hslice ⊢
  rw [hslice, List.length_append, List.length_append] at hwindow
  -- the places before, in and behind what is left, from the lengths of the parts
  rw [hslice] at htext
  generalize text.take window.1 = before at htext hbefore
  generalize text.drop window.2 = behind at htext
  have hat : ∀ n, text[before.length + n]? = (leading ++ trimmed ++ trailing ++ behind)[n]? := by
    intro n
    rw [htext, List.append_assoc, List.getElem?_append_right (Nat.le_add_right _ _),
      Nat.add_sub_cancel_left]
  have hleadingAt : ∀ n < leading.length, SpaceAt text (before.length + n) := by
    intro n hn
    refine ⟨leading[n], ?_, hleading _ (List.getElem_mem hn)⟩
    rw [hat, List.append_assoc, List.append_assoc, List.getElem?_append_left hn,
      List.getElem?_eq_getElem hn]
  have htrailingAt : ∀ n < trailing.length,
      SpaceAt text (before.length + (leading.length + trimmed.length + n)) := by
    intro n hn
    refine ⟨trailing[n], ?_, htrailing _ (List.getElem_mem hn)⟩
    rw [hat, List.getElem?_append_left (by simp only [List.length_append]; omega),
      List.getElem?_append_right (by simp only [List.length_append]; omega),
      List.length_append, Nat.add_sub_cancel_left, List.getElem?_eq_getElem hn]
  refine ⟨before.length + leading.length, before.length + leading.length + trimmed.length,
    Nat.le_add_right _ _, by omega, ?_, ?_, ?_, ?_⟩
  · have hparts : text = before ++ leading ++ trimmed ++ (trailing ++ behind) := by
      rw [htext]
      simp only [List.append_assoc]
    have hmiddle := slice_middle (before ++ leading) trimmed (trailing ++ behind)
    rw [← hparts, List.length_append] at hmiddle
    exact hmiddle.symm
  · cases hcount : leading.length with
    | zero =>
      rw [Nat.add_zero, hbefore]
      exact hfrom
    | succ n =>
      obtain ⟨u, hu, hspace⟩ := hleadingAt n (by omega)
      exact insidePair_of_not_high hu (not_surrogate_of_space hspace).1
  · cases hcount : trailing.length with
    | zero =>
      rwa [show before.length + leading.length + trimmed.length = window.2 by omega]
    | succ n =>
      obtain ⟨v, hv, hspace⟩ := htrailingAt 0 (by omega)
      rw [Nat.add_zero, ← Nat.add_assoc] at hv
      exact insidePair_of_not_low hv (not_surrogate_of_space hspace).2
  · intro i hi hi' hspace
    constructor
    · by_contra hlt
      have hin := hleadingAt (i - before.length) (by omega)
      rw [show before.length + (i - before.length) = i by omega] at hin
      exact hspace hin
    · by_contra hge
      have hin := htrailingAt (i - (before.length + leading.length + trimmed.length)) (by omega)
      rw [show before.length + (leading.length + trimmed.length +
        (i - (before.length + leading.length + trimmed.length))) = i by omega] at hin
      exact hspace hin

/-- **An excerpt holds** what of its window is neither white space nor a combining mark. -/
theorem holds_attachmentExcerpt (hlength : window.2 ≤ text.length)
    (hfrom : insidePair text window.1 = false) (hto : insidePair text window.2 = false) {i : ℕ}
    (hi : window.1 ≤ i) (hi' : i < window.2) (hspace : ¬SpaceAt text i)
    (hmark : ¬MarkAt unicode text i) : Holds text (attachmentExcerpt unicode text window) i := by
  obtain ⟨first, stop, hle, hstop, htrimmed, hfirst, hlast, hplaces⟩ :=
    exists_trimmed (hi.trans hi'.le) hlength hfrom hto
  obtain ⟨hfi, his⟩ := hplaces i hi hi' hspace
  have hchars := characters_slice (first, stop) hle hfirst hlast
  have htext := slice_append text (first, stop) hle
  have hbefore : (text.take first).length = first := by
    rw [List.length_take]
    omega
  rw [attachmentExcerpt, htrimmed]
  set marks := (characters (slice text (first, stop))).takeWhile unicode.combiningMark with hmarks
  set rest := (characters (slice text (first, stop))).dropWhile unicode.combiningMark with hrest
  have hparts : characters (slice text (first, stop)) = marks ++ rest :=
    List.takeWhile_append_dropWhile.symm
  have hslice : slice text (first, stop) = marks.flatten ++ rest.flatten := by
    rw [← List.flatten_append, ← hparts, characters_flatten]
  by_cases hin : i - first < marks.flatten.length
  · -- the place is in one of the marks
    obtain ⟨front, m, back, hsplit, hat, hbehind⟩ := exists_character hin
    refine absurd ⟨characters (text.take first) ++ front, m,
      back ++ rest ++ characters (text.drop stop), ?_, ?_, ?_, ?_⟩ hmark
    · rw [hchars, hparts, hsplit]
      simp only [List.append_assoc, List.cons_append]
    · have hmem : m ∈ marks := hsplit ▸ List.mem_append_right _ List.mem_cons_self
      exact List.mem_takeWhile_imp hmem
    · rw [List.flatten_append, characters_flatten, List.length_append, hbefore]
      omega
    · rw [List.flatten_append, characters_flatten, List.length_append, hbefore]
      omega
  · refine ⟨text.take first ++ marks.flatten, text.drop stop, ?_, ?_, ?_⟩
    · rw [List.append_assoc (text.take first), ← hslice]
      exact htext
    · rw [List.length_append, hbefore]
      omega
    · have hlengths := congrArg List.length hslice
      rw [List.length_append, slice, List.length_drop, List.length_take] at hlengths
      rw [List.length_append, hbefore]
      dsimp only at hlengths
      omega

/-! ### What is covered -/

/-- **Windows cover a text**: each character but white space and combining marks is in one, and none
begins or ends inside a pair. -/
structure CoversText (unicode : UnicodeClasses) (text : Units) (windows : List (ℕ × ℕ)) : Prop where
  covered : ∀ i < text.length, ¬SpaceAt text i → ¬MarkAt unicode text i →
    ∃ window ∈ windows, window.1 ≤ i ∧ i < window.2
  between : ∀ window ∈ windows,
    insidePair text window.1 = false ∧ insidePair text window.2 = false

/-- The windows of an attachment. -/
def attachmentWindows (unicode : UnicodeClasses) (text : Units) : List (ℕ × ℕ) :=
  Windows.windowsFrom text.length chunksPerAttachment (attachmentEnd unicode text)
    (attachmentStart unicode text) (attachmentExcerpt unicode text) 0 0

/-- The chunks of an attachment cover its text, by windows that begin and end between two
characters. -/
theorem semanticAttachmentChunks_chunkedTo {value : Units} (filename : Units)
    (h : semanticAttachmentText unicode value = .ok text) :
    ∃ chunks, semanticAttachmentChunks unicode filename text = .ok chunks ∧
      ChunkedTo text (attachmentExcerpt unicode text)
        (fun i => SpaceAt text i ∨ MarkAt unicode text i) chunks
        (attachmentWindows unicode text) text.length ∧
      CoversText unicode text (attachmentWindows unicode text) := by
  obtain ⟨hassert, hchars⟩ := semanticAttachmentText_bounds h
  have hholds : ∀ start, insidePair text start = false → start < text.length → ∀ i, start ≤ i →
      i < attachmentEnd unicode text start → ¬(SpaceAt text i ∨ MarkAt unicode text i) →
      Holds text (attachmentExcerpt unicode text (start, attachmentEnd unicode text start)) i := by
    intro start hpair hstart i hfrom hto hpassed
    rw [not_or] at hpassed
    have hends := attachmentEnd_endsWell hassert hstart
    exact holds_attachmentExcerpt hends.le hpair hends.between hfrom hto hpassed.1 hpassed.2
  obtain ⟨reached, hchunked, hwindows, hreached⟩ := chunkedTo_cut chunksPerAttachment
    (embeddingText filename) (attachmentRules hassert) rfl hholds rfl
  -- 40 windows of 1200 units more each are as long as a text may be
  have hall : reached = text.length := by
    have hcap : 1200 * chunksPerAttachment = outputChars := rfl
    rcases hreached with hreached | ⟨hle, hsteps, -⟩
    · exact hreached
    · omega
  rw [hall] at hchunked
  refine ⟨_, ?_, hchunked, fun i hi _ _ => hchunked.covers.exists_mem (Nat.zero_le i) hi,
    fun window hwindow => ?_⟩
  · rw [semanticAttachmentChunks, hassert, ok_bind]
    rfl
  · obtain ⟨start, hpair, hstart, rfl⟩ := hwindows window hwindow
    exact ⟨hpair, (attachmentEnd_endsWell hassert hstart).between⟩

/-- **When the windows of a message cover it**: they begin and end between two characters, and
behind all of them, where the twentieth chunk comes before the end of the text, there is nothing
but white space and marks. -/
structure MessageFits (unicode : UnicodeClasses) (text : Units) : Prop where
  pairs : ∀ k, MessageCuts text k → insidePair text (messagePlace text k) = false ∧
    insidePair text (messageEnd text (messagePlace text k)) = false
  rest : ∀ i < text.length,
    (∀ k, MessageCuts text k → messageEnd text (messagePlace text k) ≤ i) →
      SpaceAt text i ∨ MarkAt unicode text i

theorem coversText_messageWindows_iff {reached : ℕ}
    (hcovers : Windows.Covers 0 reached (messageWindows text)) :
    CoversText unicode text (messageWindows text) ↔ MessageFits unicode text := by
  constructor
  · intro h
    refine ⟨fun k hk => h.between _ (mem_messageWindows.mpr ⟨k, hk, rfl⟩), fun i hi hbehind => ?_⟩
    by_contra hpassed
    rw [not_or] at hpassed
    obtain ⟨window, hwindow, -, hto⟩ := h.covered i hi hpassed.1 hpassed.2
    obtain ⟨k, hk, rfl⟩ := mem_messageWindows.mp hwindow
    exact absurd hto (Nat.not_lt.mpr (hbehind k hk))
  · intro h
    refine ⟨fun i hi hspace hmark => ?_, fun window hwindow => ?_⟩
    · by_contra hnone
      refine (h.rest i hi fun k hk => ?_).elim hspace hmark
      by_contra hlt
      exact hnone (hcovers.exists_mem_of_lt (Nat.zero_le i)
        (mem_messageWindows.mpr ⟨k, hk, rfl⟩) (Nat.not_le.mp hlt))
    · obtain ⟨k, hk, rfl⟩ := mem_messageWindows.mp hwindow
      exact h.pairs k hk

/-- **Chunks cover the text** they are made of. The chunks of a message are the excerpts of its
windows, which leave no hole up to the text's end, or up to the end of the last window when there
are 20 chunks; they cover the text exactly when it fits. The chunks of an attachment always do. -/
theorem chunks_cover_text (authoredRelationshipBriefText : Units → Units)
    (unicode : UnicodeClasses) :
    (∀ source : SemanticMessageSource, semanticMessageEligible source.folderId = true →
      ∀ text, searchable authoredRelationshipBriefText source = text →
      (∃ reached, ChunkedTo text (messageExcerpt text) (SpaceAt text)
          (semanticMessageChunks authoredRelationshipBriefText source) (messageWindows text)
          reached ∧
        (reached = text.length ∨ reached ≤ text.length ∧ 8020 ≤ reached ∧
          (semanticMessageChunks authoredRelationshipBriefText source).length = 20)) ∧
      (CoversText unicode text (messageWindows text) ↔ MessageFits unicode text)) ∧
    ∀ value text filename : Units, semanticAttachmentText unicode value = .ok text →
      ∃ chunks, semanticAttachmentChunks unicode filename text = .ok chunks ∧
        ChunkedTo text (attachmentExcerpt unicode text)
          (fun i => SpaceAt text i ∨ MarkAt unicode text i) chunks
          (attachmentWindows unicode text) text.length ∧
        CoversText unicode text (attachmentWindows unicode text) := by
  refine ⟨fun source heligible text htext => ?_,
    fun _ _ filename h => semanticAttachmentChunks_chunkedTo filename h⟩
  obtain ⟨reached, hchunked, hreached⟩ :=
    semanticMessageChunks_chunkedTo authoredRelationshipBriefText heligible htext
  exact ⟨⟨reached, hchunked, hreached⟩, coversText_messageWindows_iff hchunked.covers⟩

/-- What Unicode says of letters. -/
def letterClasses : UnicodeClasses where
  combiningMark _ := false
  textAnchor _ := true
  suspicious _ := false
  space_not_mark := rfl

/-- A text with one window fits. -/
theorem messageFits_letters : MessageFits letterClasses (unitsOf "abc") := by
  have hfirst : MessageCuts (unitsOf "abc") 0 :=
    ⟨by decide, fun _ h => absurd h (Nat.not_lt_zero _), by decide⟩
  have honly : ∀ k, MessageCuts (unitsOf "abc") k → k = 0 := by
    intro k hk
    by_contra hne
    exact absurd (hk.unended 0 (Nat.pos_of_ne_zero hne)) (by decide)
  refine ⟨fun k hk => ?_, fun i hi hbehind => ?_⟩
  · rw [honly k hk]
    decide
  · exact absurd (hbehind 0 hfirst) (Nat.not_le.mpr hi)

theorem chunks_cover_text_letters :
    CoversText letterClasses (unitsOf "abc") (messageWindows (unitsOf "abc")) ∧
    ∃ chunks, semanticAttachmentChunks letterClasses [] (unitsOf "abc") = .ok chunks ∧
      CoversText letterClasses (unitsOf "abc")
        (attachmentWindows letterClasses (unitsOf "abc")) := by
  constructor
  · exact ((chunks_cover_text id letterClasses).1 (bodyMessage (unitsOf "abc")) (by decide) _
      (by decide +kernel)).2.mpr messageFits_letters
  · obtain ⟨chunks, hchunks, -, hcovers⟩ :=
      (chunks_cover_text id letterClasses).2 (unitsOf "abc") (unitsOf "abc") [] rfl
    exact ⟨chunks, hchunks, hcovers⟩

/-- A body of 1199 letters and a pair. -/
def pairBody : Units := List.replicate 1199 0x61 ++ [0xD83D, 0xDE00]

set_option maxRecDepth 10000 in
/-- Without a space the first window is as long as may be. -/
theorem messageEnd_pairBody : messageEnd pairBody 0 = 1200 := by
  have hlength : pairBody.length = 1201 := by decide +kernel
  have hspace : lastIndexOf SPACE pairBody 1200 = none := by
    refine Option.eq_none_iff_forall_not_mem.mpr fun found hfound => ?_
    have hmem : SPACE ∈ pairBody := List.mem_of_getElem? (lastIndexOf_le hfound).2
    exact absurd hmem (by decide +kernel)
  have hstop : min (0 + SEMANTIC_MESSAGE_LIMITS.chunkChars) pairBody.length = 1200 := by
    rw [hlength]
    rfl
  rw [messageEnd, hstop, hspace, hlength]
  rfl

set_option maxRecDepth 10000 in
/-- **A window of a message ends inside a pair.** -/
theorem pair_cut_apart : searchable id (bodyMessage pairBody) = pairBody ∧
    ∀ unicode, ¬CoversText unicode pairBody (messageWindows pairBody) := by
  refine ⟨by decide +kernel, fun unicode h => ?_⟩
  have hcuts : MessageCuts pairBody 0 :=
    ⟨by decide +kernel, fun _ h => absurd h (Nat.not_lt_zero _), Nat.zero_lt_succ _⟩
  have hbetween := (h.between _ (mem_messageWindows.mpr ⟨0, hcuts, rfl⟩)).2
  have hinside : insidePair pairBody 1200 = true := by decide +kernel
  rw [messagePlace, Windows.place, messageEnd_pairBody, hinside] at hbetween
  cases hbetween

end MailPortal.Semantic
