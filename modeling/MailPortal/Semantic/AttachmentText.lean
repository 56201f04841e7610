import MailPortal.Documents.Reading
import MailPortal.Semantic.Excerpts

/-!
# The Text and the Excerpts of an Attachment

What a reader takes out of an attachment becomes a text only if it is plausible: it has no unpaired
surrogates and no invisible controls, at most 64 combining marks in a row, and letters enough. The
text is cut into excerpts of 1400 code units at most, each of which begins 1200 units behind the one
before at least. No window begins or ends inside a surrogate pair, or in front of a combining mark.

Main results:

* `run_le` : no more than 64 combining marks stand side by side in a text that is accepted.
* `semanticAttachmentText_bounds` : what is known of a text that is returned.
-/

namespace MailPortal.Semantic

open Documents Failure Utf16

/-! ### The limits -/

namespace SEMANTIC_ATTACHMENT_LIMITS

def outputBytes : ℕ := 64 * 1024
def outputChars : ℕ := 48000
def filenameChars : ℕ := 255
def chunkChars : ℕ := 1400
def chunkOverlapChars : ℕ := 200
def chunksPerAttachment : ℕ := 40

end SEMANTIC_ATTACHMENT_LIMITS

open SEMANTIC_ATTACHMENT_LIMITS

def MAX_COMBINING_MARK_RUN : ℕ := 64

def MIN_TEXT_PLAUSIBILITY_SCALARS : ℕ := 32

/-! ### Unicode -/

/-- The classes of characters that the code asks Unicode for. A space is no combining mark. -/
structure UnicodeClasses where
  /-- `\p{M}` -/
  combiningMark : Units → Bool
  /-- `[\p{L}\p{N}\p{P}]` -/
  textAnchor : Units → Bool
  /-- `[\p{Co}\p{Cn}]` -/
  suspicious : Units → Bool
  space_not_mark : combiningMark [SPACE] = false

variable (unicode : UnicodeClasses)

/-- The character that `codePointAt` reads, and nothing behind the end. -/
def scalarAt (value : Units) (index : ℕ) : Units := ((characters (value.drop index)).head?).getD []

def scalarWidthAt (value : Units) (index : ℕ) : ℕ :=
  if (scalarAt value index).length = 2 then 2 else 1

def previousScalarStart (value : Units) (index : ℕ) : ℕ :=
  let previous := index - 1
  if insidePair value previous then previous - 1 else previous

/-- `/^\p{M}$/u`, of one character -/
def isCombiningMarkAt (value : Units) (index : ℕ) : Bool :=
  !(scalarAt value index).isEmpty && unicode.combiningMark (scalarAt value index)

/-! ### The text -/

/-- `replace(/[ \t]+$/gm, "")` -/
def trimLineEnds (value : Units) : Units :=
  Replace.replaceAll (fun
    | [] => none
    | u :: rest =>
      if isBlankUnit u ∧ (rest.dropWhile isBlankUnit).head?.all isLineTerminator then
        some ([], (rest.takeWhile isBlankUnit).length)
      else none) value

def normalizeExtractedText (value : Units) : Units :=
  let value := (lineFeeds value).map fun u => if u = 0x2028 ∨ u = 0x2029 then LF else u
  trim (fewerLineFeeds 3 (trimLineEnds value))

/-- The counts of `assertSemanticAttachmentText`. -/
structure ScalarCounts where
  visibleScalars : ℕ := 0
  textAnchors : ℕ := 0
  suspiciousScalars : ℕ := 0
  combiningMarkRun : ℕ := 0

/-- One pass of its loop. -/
def countScalar (counts : ScalarCounts) (scalar : Units) : Reader ScalarCounts := do
  let run := if unicode.combiningMark scalar then counts.combiningMarkRun + 1 else 0
  failIf (unicode.combiningMark scalar ∧ run > MAX_COMBINING_MARK_RUN) .unsafe_text
  let counts := { counts with combiningMarkRun := run }
  if scalar.all isSpaceUnit then return counts
  return { counts with
    visibleScalars := counts.visibleScalars + 1
    textAnchors := counts.textAnchors + if unicode.textAnchor scalar then 1 else 0
    suspiciousScalars := counts.suspiciousScalars + if unicode.suspicious scalar then 1 else 0 }

def assertSemanticAttachmentText (value : Units) : Reader Unit := do
  let counts ← (characters value).foldlM (countScalar unicode) {}
  failIf (counts.visibleScalars ≥ MIN_TEXT_PLAUSIBILITY_SCALARS ∧
    (counts.suspiciousScalars * 20 > counts.visibleScalars ∨
      counts.textAnchors * 5 < counts.visibleScalars)) .unsafe_text

/-! ### Combining marks in a row -/

variable {unicode} {counts counts' : ScalarCounts}

theorem countScalar_mark {scalar : Units} (hmark : unicode.combiningMark scalar = true)
    (h : countScalar unicode counts scalar = .ok counts') :
    counts'.combiningMarkRun = counts.combiningMarkRun + 1 ∧ counts.combiningMarkRun + 1 ≤ 64 := by
  rw [countScalar, hmark, if_pos rfl] at h
  obtain ⟨_, hrun, h⟩ := bind_eq_ok.mp h
  have hle := Nat.not_lt.mp fun hlt => failIf_eq_ok.mp hrun ⟨rfl, hlt⟩
  refine ⟨?_, hle⟩
  dsimp only at h
  split at h
  · exact congrArg ScalarCounts.combiningMarkRun (Except.ok.inj h).symm
  · exact congrArg ScalarCounts.combiningMarkRun (Except.ok.inj h).symm

theorem foldlM_marks {marks : List Units} (hmarks : ∀ m ∈ marks, unicode.combiningMark m = true)
    (h : marks.foldlM (countScalar unicode) counts = .ok counts') :
    marks.length ≤ 64 - counts.combiningMarkRun := by
  induction marks generalizing counts with
  | nil => exact Nat.zero_le _
  | cons m marks ih =>
    rw [List.foldlM_cons] at h
    obtain ⟨counts₁, hm, hrest⟩ := bind_eq_ok.mp h
    obtain ⟨hrun, hle⟩ := countScalar_mark (hmarks m List.mem_cons_self) hm
    have hlength := ih (fun m' hm' => hmarks m' (List.mem_cons_of_mem m hm')) hrest
    rw [List.length_cons]
    omega

/-- **No more than 64 marks** stand side by side in a text that is accepted. -/
theorem run_le {text : Units} (h : assertSemanticAttachmentText unicode text = .ok ())
    {front marks back : List Units} (htext : characters text = front ++ (marks ++ back))
    (hmarks : ∀ m ∈ marks, unicode.combiningMark m = true) : marks.length ≤ 64 := by
  obtain ⟨_, hcounts, -⟩ := bind_eq_ok.mp h
  rw [htext, List.foldlM_append] at hcounts
  obtain ⟨counts, -, hrest⟩ := bind_eq_ok.mp hcounts
  rw [List.foldlM_append] at hrest
  obtain ⟨_, hrun, -⟩ := bind_eq_ok.mp hrest
  exact (foldlM_marks hmarks hrun).trans (Nat.sub_le _ _)

variable (unicode)

/-! ### A text is returned -/

/-- `/[\uD800-\uDFFF]/u`, which finds no half of a pair. -/
def hasLoneSurrogate (value : Units) : Bool :=
  (characters value).any fun scalar => scalar.length = 1 && scalar.all (inRanges [(0xD800, 0xDFFF)])

/-- The controls and invisible characters that no text may have. -/
def isUnsafeUnit : UInt16 → Bool :=
  inRanges [(0x0000, 0x0008), (0x000B, 0x000C), (0x000E, 0x001F), (0x007F, 0x009F),
    (0x00AD, 0x00AD), (0x061C, 0x061C), (0x200B, 0x200B), (0x200E, 0x200F), (0x202A, 0x202E),
    (0x2060, 0x206F), (0xFEFF, 0xFEFF)]

def semanticAttachmentText (value : Units) : Reader Units := do
  failIf (hasLoneSurrogate value ∨ value.any isUnsafeUnit) .unsafe_text
  let text := normalizeExtractedText value
  failIf text.isEmpty .empty_output
  assertSemanticAttachmentText unicode text
  failIf (text.length > outputChars) .output_exceeded
  failIf (utf8Bytes text > outputBytes) .output_exceeded
  return text

/-- **A text that is returned** is accepted as it is, and within the bounds. -/
theorem semanticAttachmentText_bounds {unicode : UnicodeClasses} {value text : Units}
    (h : semanticAttachmentText unicode value = .ok text) :
    assertSemanticAttachmentText unicode text = .ok () ∧ text.length ≤ outputChars := by
  obtain ⟨_, -, h⟩ := bind_eq_ok.mp h
  obtain ⟨_, -, h⟩ := bind_eq_ok.mp h
  obtain ⟨_, hassert, h⟩ := bind_eq_ok.mp h
  obtain ⟨_, hchars, h⟩ := bind_eq_ok.mp h
  obtain ⟨_, -, h⟩ := bind_eq_ok.mp h
  cases h
  exact ⟨hassert, Nat.not_lt.mp (failIf_eq_ok.mp hchars)⟩

/-! ### The windows -/

section Windows

variable (text : Units)

/-- What the loop before the end of a window leaves: the place in front of the marks. -/
def clusterBoundary (start place : ℕ) : ℕ :=
  if start < place ∧ isCombiningMarkAt unicode text place then
    clusterBoundary start (previousScalarStart text place)
  else place
termination_by place
decreasing_by
  rw [previousScalarStart]
  split <;> omega

/-- What the loop behind the start of a window leaves: the place behind the marks. -/
def skipMarks (place : ℕ) : ℕ :=
  if place < text.length ∧ isCombiningMarkAt unicode text place then
    skipMarks (place + scalarWidthAt text place)
  else place
termination_by text.length - place
decreasing_by
  rw [scalarWidthAt]
  split <;> omega

def minimumAdvance : ℕ := chunkChars - chunkOverlapChars

def hardEnd (start : ℕ) : ℕ := min (start + chunkChars) text.length

/-- The hard end, or the place in front of the pair that it is inside of. -/
def pairEnd (start : ℕ) : ℕ :=
  if hardEnd text start < text.length ∧ insidePair text (hardEnd text start) then
    hardEnd text start - 1
  else hardEnd text start

/-- The last space before an end, unless it is too early. -/
def spaceEnd (minimumEnd stop : ℕ) : ℕ :=
  match lastIndexOf SPACE text stop with
  | some boundary => if boundary ≥ minimumEnd then boundary else stop
  | none => stop

def attachmentEnd (start : ℕ) : ℕ :=
  let minimumEnd := min (start + minimumAdvance) (hardEnd text start)
  if pairEnd text start < text.length then
    let stop := spaceEnd text minimumEnd (pairEnd text start)
    let cluster := clusterBoundary unicode text start stop
    if cluster ≥ minimumEnd then cluster else stop
  else pairEnd text start

def attachmentStart (start : ℕ) : ℕ :=
  let stop := attachmentEnd unicode text start
  let minimumNextStart := min (start + minimumAdvance) stop
  let nextStart := max (stop - chunkOverlapChars) minimumNextStart
  let nextStart :=
    if insidePair text nextStart then
      if nextStart - 1 ≥ minimumNextStart then nextStart - 1 else nextStart + 1
    else nextStart
  skipMarks unicode text nextStart

/-- `trim().replace(/^\p{M}+/u, "")` -/
def attachmentExcerpt (window : ℕ × ℕ) : Units :=
  ((characters (trim (slice text window))).dropWhile unicode.combiningMark).flatten

end Windows

/-! ### The name in front -/

/-- The loop of `truncateSemanticSearchText`. -/
def truncateScalars (maxCodeUnits : ℕ) : List Units → Units → Units
  | [], result => result
  | character :: characters, result =>
    let scalar := if hasLoneSurrogate character then [0xFFFD] else character
    if result.length + scalar.length > maxCodeUnits then result
    else truncateScalars maxCodeUnits characters (result ++ scalar)

def truncateSemanticSearchText (value : Units) (maxCodeUnits : ℕ) : Units :=
  truncateScalars maxCodeUnits (characters value) []

/-- `replace(/\s+/g, " ")` -/
def singleSpaces (value : Units) : Units :=
  Replace.replaceAll (fun
    | [] => none
    | u :: rest =>
      if isSpaceUnit u then some ([SPACE], (rest.takeWhile isSpaceUnit).length) else none) value

def safeFilename (filename : Units) : Units :=
  let filename := filename.map fun u =>
    if inRanges [(0x0000, 0x001F), (0x007F, 0x007F)] u then SPACE else u
  truncateSemanticSearchText (trim (singleSpaces filename)) filenameChars

def embeddingText (filename excerpt : Units) : Units :=
  if (safeFilename filename).isEmpty then excerpt
  else unitsOf "Attachment: " ++ safeFilename filename ++ [LF] ++ excerpt

def semanticAttachmentChunks (filename text : Units) : Reader (List SemanticChunk) := do
  assertSemanticAttachmentText unicode text
  return Windows.cut text.length chunksPerAttachment (attachmentEnd unicode text)
    (attachmentStart unicode text) (attachmentExcerpt unicode text)
    (fun ordinal excerpt => ⟨ordinal, embeddingText filename excerpt, excerpt⟩) 0 []

end MailPortal.Semantic
