import MailPortal.Semantic.Excerpts

/-!
# The Excerpts of a Message

A message is cut into excerpts of 1200 code units at most. A window ends with a word when there is a
space in its second half, and the next one begins 200 units before its end. No message has more than
20 excerpts, so that the end of a long one has none. Nothing keeps a window from ending between the
two halves of a surrogate pair.

Main results:

* `messageRules` : windows do not leave a hole, and each begins 401 units further on at least.
* `semanticMessageChunks_chunkedTo` : the excerpts are those of windows that cover the text, up to
  its end or to where the last of 20 excerpts ends.
* `mem_messageWindows` : where the windows begin and end.
-/

namespace MailPortal.Semantic

open Utf16 Windows

/-! ### The limits -/

namespace SEMANTIC_MESSAGE_LIMITS

def subjectChars : ℕ := 500
def participantChars : ℕ := 1000
def bodyChars : ℕ := 24000
def chunkChars : ℕ := 1200
def chunkOverlapChars : ℕ := 200
def chunksPerMessage : ℕ := 20

end SEMANTIC_MESSAGE_LIMITS

open SEMANTIC_MESSAGE_LIMITS

def EXCLUDED_FOLDERS : List String := ["draft", "outbox", "trash", "spam"]

def isInternalFolderId (folderId : String) : Bool := folderId = "_cancelled_outbound"

/-- What of a message is indexed. -/
structure SemanticMessageSource where
  folderId : String
  subject : Units
  sender : Units
  recipient : Units
  cc : Units
  bcc : Units
  body : Units

variable {source : SemanticMessageSource}

/-! ### The text -/

/-- `[\u0000-\u0008\u000B\u000C\u000E-\u001F\u007F]` -/
def isControlUnit : UInt16 → Bool :=
  inRanges [(0x0000, 0x0008), (0x000B, 0x000C), (0x000E, 0x001F), (0x007F, 0x007F)]

/-- `[\u0080-\u009F\u00AD\u061C\u200B-\u200F\u2028-\u202F\u2060-\u206F\uFEFF]` -/
def isInvisibleUnit : UInt16 → Bool :=
  inRanges [(0x0080, 0x009F), (0x00AD, 0x00AD), (0x061C, 0x061C), (0x200B, 0x200F),
    (0x2028, 0x202F), (0x2060, 0x206F), (0xFEFF, 0xFEFF)]

def normalizedText (value : Units) (maximum : ℕ) : Units :=
  let value := (lineFeeds value).filter fun u => !isControlUnit u
  let value := value.map fun u => if isInvisibleUnit u then SPACE else u
  (trim (fewerLineFeeds 2 (singleBlanks value))).take maximum

def semanticMessageEligible (folderId : String) : Bool :=
  folderId ≠ "" && !isInternalFolderId folderId && folderId ∉ EXCLUDED_FOLDERS

/-- `filter(Boolean).join(separator)` -/
def joinFilled (separator : Units) (values : List Units) : Units :=
  separator.intercalate (values.filter fun value => !value.isEmpty)

variable (authoredRelationshipBriefText : Units → Units)

/-- The text that is searched. What of a body its sender has written is told from the outside. -/
def searchable (source : SemanticMessageSource) : Units :=
  let subject := normalizedText source.subject subjectChars
  let participants := normalizedText
    (joinFilled [SPACE, 0x7C, SPACE] [source.sender, source.recipient, source.cc, source.bcc])
    participantChars
  let body := normalizedText (authoredRelationshipBriefText source.body) bodyChars
  joinFilled [LF] [subject, participants, body]

/-! ### The windows -/

section Windows

variable (text : Units)

def messageEnd (start : ℕ) : ℕ :=
  let stop := min (start + chunkChars) text.length
  if stop < text.length then
    match lastIndexOf SPACE text stop with
    | some boundary => if boundary > start + chunkChars / 2 then boundary else stop
    | none => stop
  else stop

def messageStart (start : ℕ) : ℕ := messageEnd text start - chunkOverlapChars

def messageExcerpt (window : ℕ × ℕ) : Units := trim (slice text window)

end Windows

/-- The windows of a message. -/
def messageWindows (text : Units) : List (ℕ × ℕ) :=
  windowsFrom text.length chunksPerMessage (messageEnd text) (messageStart text)
    (messageExcerpt text) 0 0

/-- Where window `k` of a message begins. -/
def messagePlace (text : Units) (k : ℕ) : ℕ := place (messageStart text) k

/-- A message has a window `k`. -/
def MessageCuts (text : Units) (k : ℕ) : Prop :=
  Cuts text.length chunksPerMessage (messageEnd text) (messageStart text) (messageExcerpt text) k

def semanticMessageChunks (source : SemanticMessageSource) : List SemanticChunk :=
  if !semanticMessageEligible source.folderId then []
  else
    let text := searchable authoredRelationshipBriefText source
    if text.isEmpty then []
    else
      cut text.length chunksPerMessage (messageEnd text) (messageStart text) (messageExcerpt text)
        (fun ordinal excerpt => ⟨ordinal, excerpt, excerpt⟩) 0 []

/-! ### What is covered -/

theorem lastIndexOf_le {unit : UInt16} {value : Units} {place found : ℕ}
    (h : lastIndexOf unit value place = some found) :
    found ≤ place ∧ value[found]? = some unit := by
  induction place with
  | zero =>
    rw [lastIndexOf] at h
    split at h
    · rename_i hunit
      cases h
      exact ⟨le_rfl, hunit⟩
    · cases h
  | succ place ih =>
    rw [lastIndexOf] at h
    split at h
    · rename_i hunit
      cases h
      exact ⟨le_rfl, hunit⟩
    · exact ⟨(ih h).1.trans (Nat.le_succ _), (ih h).2⟩

variable {text : Units} {start : ℕ}

/-- A window ends with the text, at its full length, or at a space in its second half. -/
theorem messageEnd_cases (text : Units) (start : ℕ) :
    messageEnd text start = min (start + 1200) text.length ∨
      start + 600 < messageEnd text start ∧
        messageEnd text start ≤ min (start + 1200) text.length := by
  have hchunk : chunkChars = 1200 := rfl
  generalize hstop : messageEnd text start = stop
  rw [messageEnd] at hstop
  split at hstop
  · split at hstop
    · rename_i boundary hboundary
      have hle := (lastIndexOf_le hboundary).1
      split at hstop <;> omega
    · omega
  · omega

theorem messageRules (text : Units) :
    Rules text.length (messageEnd text) (messageStart text) (fun _ => True) 401 where
  stop_le start _ _ := by
    have hstop := messageEnd_cases text start
    omega
  lt_stop start _ hstart := by
    have hstop := messageEnd_cases text start
    omega
  next_le _ _ _ _ := Nat.sub_le _ _
  inv _ _ _ _ := trivial
  step_le start _ hstart hinside := by
    have hstop := messageEnd_cases text start
    have hnext : messageStart text start = messageEnd text start - 200 := rfl
    omega

section

variable {text : Units} (h : semanticMessageEligible source.folderId = true)
  (htext : searchable authoredRelationshipBriefText source = text)
include h htext

theorem semanticMessageChunks_eq :
    semanticMessageChunks authoredRelationshipBriefText source =
      cut text.length chunksPerMessage (messageEnd text) (messageStart text) (messageExcerpt text)
        (fun ordinal excerpt => ⟨ordinal, excerpt, excerpt⟩) 0 [] := by
  rw [semanticMessageChunks, h, Bool.not_true, if_neg Bool.false_ne_true, htext]
  dsimp only
  split
  · rename_i hempty
    rw [List.isEmpty_iff.mp hempty, cut]
    exact (if_neg fun h => absurd h.1 (Nat.not_lt_zero _)).symm
  · rfl

/-- **The chunks of a message** cover its text to the end, unless there are 20 of them. -/
theorem semanticMessageChunks_chunkedTo :
    ∃ reached, ChunkedTo text (messageExcerpt text) (SpaceAt text)
        (semanticMessageChunks authoredRelationshipBriefText source) (messageWindows text)
        reached ∧
      (reached = text.length ∨ reached ≤ text.length ∧ 8020 ≤ reached ∧
        (semanticMessageChunks authoredRelationshipBriefText source).length = 20) := by
  have hchunks := semanticMessageChunks_eq authoredRelationshipBriefText h htext
  have hcap : (semanticMessageChunks authoredRelationshipBriefText source).length ≤ 20 := by
    rw [hchunks]
    exact length_cut_le (Nat.zero_le _)
  have hholds : ∀ start, True → start < text.length → ∀ i, start ≤ i → i < messageEnd text start →
      ¬SpaceAt text i → Holds text (messageExcerpt text (start, messageEnd text start)) i := by
    intro start _ hstart i hfrom hto hspace
    have hlength := (messageRules text).stop_le start trivial hstart
    have hunit := List.getElem?_eq_getElem (hto.trans_le hlength)
    have hslice : Holds text (slice text (start, messageEnd text start)) i :=
      holds_slice hfrom hto hlength
    exact hslice.trim hunit (Bool.eq_false_iff.mpr fun htrimmed => hspace ⟨_, hunit, htrimmed⟩)
  obtain ⟨reached, hchunked, -, hreached⟩ := chunkedTo_cut chunksPerMessage id
    (messageRules text) trivial hholds hchunks
  exact ⟨reached, hchunked, hreached.imp_right fun h => ⟨h.1, h.2.1, hcap.antisymm h.2.2⟩⟩

end

/-- **Where the windows of a message are.** -/
theorem mem_messageWindows {window : ℕ × ℕ} : window ∈ messageWindows text ↔
    ∃ k, MessageCuts text k ∧
      window = (messagePlace text k, messageEnd text (messagePlace text k)) :=
  (mem_windowsFrom (k := 0) fun _ h => absurd h (Nat.not_lt_zero _)).trans
    (exists_congr fun k => and_iff_right (Nat.zero_le k))

/-- A message with nothing but a body. -/
def bodyMessage (body : Units) : SemanticMessageSource := ⟨"inbox", [], [], [], [], [], body⟩

end MailPortal.Semantic
