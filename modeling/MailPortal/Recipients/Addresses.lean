import MailPortal.Lib.Replace
import MailPortal.Lib.Words
import MailPortal.Platform.Text

/-!
# Recipient Addresses as People Type them

The composer and the server read a text of recipients in the same way. The text is split where a
comma, a semicolon or a line break stands outside quotes, brackets and comments. Of each part the
addresses are taken, in brackets or as words with an at-sign; a part without an address stays as it
was typed.

Main results:

* `blankComments_withoutNamesAndComments` : no comment is left when the loop that blanks them ends.
* `splitAddressList_eq` : the parts are what a scan of the text puts together between separators.
-/

namespace MailPortal.Recipients

open Utf16

abbrev SPACE : UInt16 := 0x20

/-- `"` -/
abbrev QUOTE : UInt16 := 0x22

/-- `'` -/
abbrev APOSTROPHE : UInt16 := 0x27

/-- `(` -/
abbrev OPEN : UInt16 := 0x28

/-- `)` -/
abbrev CLOSE : UInt16 := 0x29

/-- `-` -/
abbrev HYPHEN : UInt16 := 0x2D

/-- `.` -/
abbrev DOT : UInt16 := 0x2E

/-- `\` -/
abbrev BACKSLASH : UInt16 := 0x5C

/-! ### Valid addresses -/

/-- `[A-Z]`, in any case -/
def isLetterUnit (u : UInt16) : Bool :=
  0x41 ≤ u.toNat && u.toNat ≤ 0x5A || 0x61 ≤ u.toNat && u.toNat ≤ 0x7A

/-- `[A-Z0-9]` -/
def isAlphanumericUnit (u : UInt16) : Bool := isLetterUnit u || 0x30 ≤ u.toNat && u.toNat ≤ 0x39

/-- `[A-Z0-9_+-]` -/
def isLastLocalUnit (u : UInt16) : Bool :=
  isAlphanumericUnit u || u = 0x5F || u = 0x2B || u = HYPHEN

/-- `[A-Z0-9_'+\-\.]` -/
def isLocalUnit (u : UInt16) : Bool := isLastLocalUnit u || u = APOSTROPHE || u = DOT

/-- `[A-Z0-9][A-Z0-9\-]*` -/
def isDomainLabel (label : Units) : Bool :=
  label.head?.any isAlphanumericUnit && label.all fun u => isAlphanumericUnit u || u = HYPHEN

/-- `[A-Z]{2,}` -/
def isTopLevelLabel (label : Units) : Bool := 2 ≤ label.length && label.all isLetterUnit

/-- What stands before the at-sign. -/
def isLocalPart (part : Units) : Bool :=
  part.head? ≠ some DOT && part.all isLocalUnit && part.getLast?.any isLastLocalUnit

/-- What stands behind it: labels with dots between them. -/
def isDomainPart (part : Units) : Bool :=
  let labels := part.splitOn DOT
  2 ≤ labels.length && labels.dropLast.all isDomainLabel && labels.getLast?.any isTopLevelLabel

/-- `EMAIL_PATTERN.test(address)` -/
def isValidRecipientAddress (address : Units) : Bool :=
  ¬[DOT, DOT] <:+: address &&
    match address.splitOn AT_SIGN with
    | [localPart, domain] => isLocalPart localPart && isDomainPart domain
    | _ => false

/-! ### Comparing addresses -/

/-- `[^<>]` -/
def isInnerUnit (u : UInt16) : Bool := u ≠ LESS && u ≠ GREATER

/-- What `/<([^<>]+)>\s*$/` captures, in a text that has been trimmed. -/
def bracketedAddress (trimmed : Units) : Option Units :=
  let inner := (trimmed.dropLast.reverse.takeWhile isInnerUnit).reverse
  if trimmed.getLast? = some GREATER ∧ inner ≠ [] ∧
      (trimmed.dropLast.take (trimmed.dropLast.length - inner.length)).getLast? = some LESS then
    some inner
  else none

def trim (value : Units) : Units := Words.trimBoth isSpaceUnit value

def normalizedAddress (toLowerCase : Units → Units) (value : Units) : Units :=
  toLowerCase (trim ((bracketedAddress (trim value)).getD (trim value)))

/-! ### Splitting -/

/-- `[,;\r\n]` -/
def isSeparatorUnit (u : UInt16) : Bool := u = 0x2C || u = 0x3B || u = 0x0D || u = 0x0A

/-- Where a scan is: in quotes, in brackets, in comments. -/
structure ScanState where
  quoted : Bool := false
  bracketed : Bool := false
  commentDepth : ℕ := 0
  deriving DecidableEq

/-- What one character does: whether it is a separator, whether the next one is passed over, and
where the scan is behind it. -/
def scanUnit (s : ScanState) (character : UInt16) : Bool × Bool × ScanState :=
  if (s.quoted || s.commentDepth > 0) && character = BACKSLASH then (false, true, s)
  else if s.quoted then (false, false, { s with quoted := character ≠ QUOTE })
  else if s.commentDepth > 0 then
    if character = OPEN then (false, false, { s with commentDepth := s.commentDepth + 1 })
    else if character = CLOSE then (false, false, { s with commentDepth := s.commentDepth - 1 })
    else (false, false, s)
  else if s.bracketed then (false, false, { s with bracketed := character ≠ GREATER })
  else if character = QUOTE then (false, false, { s with quoted := true })
  else if character = OPEN then (false, false, { s with commentDepth := 1 })
  else if character = LESS then (false, false, { s with bracketed := true })
  else (isSeparatorUnit character, false, s)

/-- The separators of the text behind `index`; `skip` is whether the next character is escaped. -/
def separatorsFrom : (skip : Bool) → ScanState → (index : ℕ) → Units → List ℕ
  | _, _, _, [] => []
  | true, s, index, _ :: rest => separatorsFrom false s (index + 1) rest
  | false, s, index, character :: rest =>
    let (separates, skip, s') := scanUnit s character
    let positions := separatorsFrom skip s' (index + 1) rest
    if separates then index :: positions else positions

def recipientSeparatorPositions (text : Units) : List ℕ := separatorsFrom false {} 0 text

/-- The loop of `splitAddressList`. -/
def partsFrom (text : Units) : (start : ℕ) → List ℕ → List Units
  | _, [] => []
  | start, position :: positions =>
    trim ((text.take position).drop start) :: partsFrom text (position + 1) positions

def splitAddressList (text : Units) : List Units :=
  (partsFrom text 0 (recipientSeparatorPositions text ++ [text.length])).filter
    fun part => !part.isEmpty

/-- The text in pieces, without the separators between them. -/
def splitFrom : (skip : Bool) → ScanState → Units → List Units
  | _, _, [] => [[]]
  | true, s, u :: rest => (splitFrom false s rest).modifyHead (u :: ·)
  | false, s, u :: rest =>
    let (separates, skip, s') := scanUnit s u
    if separates then [] :: splitFrom skip s' rest
    else (splitFrom skip s' rest).modifyHead (u :: ·)

theorem partsFrom_eq (skip : Bool) (s : ScanState) {text before rest : Units} {start : ℕ}
    (htext : text = before ++ rest) (hstart : start ≤ before.length) :
    partsFrom text start (separatorsFrom skip s before.length rest ++ [text.length]) =
      ((splitFrom skip s rest).modifyHead (before.drop start ++ ·)).map trim := by
  induction rest generalizing before start skip s with
  | nil =>
    rw [List.append_nil] at htext
    have hend : separatorsFrom skip s before.length [] = [] := by cases skip <;> rfl
    have hpiece : splitFrom skip s [] = [[]] := by cases skip <;> rfl
    rw [hend, hpiece, List.nil_append, partsFrom, partsFrom, htext, List.take_length]
    exact congrArg (fun piece => [trim piece]) (List.append_nil _).symm
  | cons u rest ih =>
    have hnext : text = before ++ [u] ++ rest := by
      rw [htext, List.append_assoc, List.singleton_append]
    have hlength : (before ++ [u]).length = before.length + 1 := List.length_append
    have hdrop : (before ++ [u]).drop start = before.drop start ++ [u] :=
      List.drop_append_of_le_length hstart
    -- the character is put behind what the piece has already
    have hgo : ∀ skip s,
        partsFrom text start (separatorsFrom skip s (before.length + 1) rest ++ [text.length]) =
          (((splitFrom skip s rest).modifyHead (u :: ·)).modifyHead
            (before.drop start ++ ·)).map trim := by
      intro skip s
      have hrest := ih skip s hnext (hstart.trans (Nat.le_of_lt (by rw [hlength]; omega)))
      rw [hlength, hdrop] at hrest
      rw [hrest, List.modifyHead_modifyHead]
      simp only [List.append_assoc, List.singleton_append, Function.comp_def]
    cases skip with
    | true => exact hgo false s
    | false =>
      rw [separatorsFrom, splitFrom]
      dsimp only
      split
      · have hrest := ih (scanUnit s u).2.1 (scanUnit s u).2.2 hnext le_rfl
        rw [hlength, List.drop_of_length_le hlength.le] at hrest
        rw [List.cons_append, partsFrom, hrest, List.modifyHead_cons, List.append_nil,
          List.map_cons, htext, List.take_left]
        have hid : (fun piece : Units => [] ++ piece) = id := rfl
        rw [hid, List.modifyHead_id]
        rfl
      · exact hgo _ _

/-- **The parts** are the pieces, trimmed, in which there is something. -/
theorem splitAddressList_eq (text : Units) : splitAddressList text =
    ((splitFrom false {} text).map trim).filter fun part => !part.isEmpty := by
  have hparts := partsFrom_eq false {} (List.nil_append text).symm (Nat.zero_le _)
  rw [splitAddressList, recipientSeparatorPositions]
  rw [List.length_nil] at hparts
  rw [hparts, List.drop_nil]
  have hid : (fun piece : Units => [] ++ piece) = id := rfl
  rw [hid, List.modifyHead_id]
  rfl

/-! ### One part -/

/-- A letter of ASCII in lower case. -/
def lowerUnit (u : UInt16) : UInt16 := if 0x41 ≤ u.toNat ∧ u.toNat ≤ 0x5A then u + 0x20 else u

/-- `value.trim().replace(/^mailto:/i, "")` -/
def withoutMailto (value : Units) : Units :=
  let trimmed := trim value
  if (trimmed.take 7).map lowerUnit = unitsOf "mailto:" then trimmed.drop 7 else trimmed

/-- How far a text goes up to what closes it, past escapes, where there is nothing in it that may
not be. -/
def delimitedLength (closing : UInt16) (isExcluded : UInt16 → Bool) : Units → Option ℕ
  | [] => none
  | [u] => if u = closing then some 1 else none
  | u :: v :: rest =>
    if u = closing then some 1
    else if isExcluded u then none
    else if u = BACKSLASH then
      if isLineTerminator v then none
      else (delimitedLength closing isExcluded rest).map (· + 2)
    else (delimitedLength closing isExcluded (v :: rest)).map (· + 1)

/-- A match of a text between two characters, which is blanked out. -/
def blankRule (opening closing : UInt16) (isExcluded : UInt16 → Bool) : Replace.Rule UInt16
  | [] => none
  | u :: rest =>
    if u = opening then
      (delimitedLength closing isExcluded rest).map fun n => (List.replicate (n + 1) SPACE, n)
    else none

/-- `replace(/"(?:[^"\\]|\\.)*"/g, blank)` -/
def blankNames (part : Units) : Units :=
  Replace.replaceAll (blankRule QUOTE QUOTE fun _ => false) part

/-- `replace(/\((?:[^()\\]|\\.)*\)/g, blank)` -/
def blankComments (visible : Units) : Units :=
  Replace.replaceAll (blankRule OPEN CLOSE fun u => u = OPEN) visible

/-- The loop that blanks comments, from the innermost out, until nothing changes. -/
def withoutComments : ℕ → Units → Units
  | 0, visible => visible
  | passes + 1, visible =>
    if blankComments visible = visible then visible
    else withoutComments passes (blankComments visible)

/-- Each pass takes a parenthesis away, so that there are no more passes than these. -/
def withoutNamesAndComments (part : Units) : Units :=
  withoutComments ((blankNames part).count OPEN) (blankNames part)

theorem blankRule_none {opening closing : UInt16} {isExcluded : UInt16 → Bool} {u : UInt16}
    (h : u ≠ opening) (rest : Units) : blankRule opening closing isExcluded (u :: rest) = none :=
  if_neg h

/-- Where there is something to blank, parentheses are taken away. -/
theorem count_scan (skip : ℕ) (text : Units) :
    Replace.scan (blankRule OPEN CLOSE fun u => u = OPEN) skip text = text.drop skip ∨
      (Replace.scan (blankRule OPEN CLOSE fun u => u = OPEN) skip text).count OPEN <
        (text.drop skip).count OPEN := by
  induction text generalizing skip with
  | nil => exact .inl (List.drop_nil.symm ▸ by cases skip <;> rfl)
  | cons u rest ih =>
    cases skip with
    | succ skip => exact ih skip
    | zero =>
      rw [Replace.scan, List.drop_zero]
      cases hrule : blankRule OPEN CLOSE (fun u => u = OPEN) (u :: rest) with
      | none =>
        rcases ih 0 with hsame | hless
        · exact .inl (congrArg (u :: ·) hsame)
        · refine .inr ?_
          dsimp only
          rw [List.count_cons, List.count_cons]
          exact Nat.add_lt_add_right hless _
      | some found =>
        obtain ⟨replacement, more⟩ := found
        have hopening : u = OPEN := by
          by_contra hne
          rw [blankRule_none hne] at hrule
          cases hrule
        rw [blankRule, if_pos hopening] at hrule
        obtain ⟨n, -, hfound⟩ := Option.map_eq_some_iff.mp hrule
        obtain ⟨rfl, rfl⟩ := Prod.mk.inj hfound
        refine .inr ?_
        dsimp only
        have hblank : (List.replicate (n + 1) SPACE).count OPEN = 0 := by
          rw [List.count_replicate]
          rfl
        have hle : (Replace.scan (blankRule OPEN CLOSE fun u => u = OPEN) n rest).count OPEN ≤
            rest.count OPEN := by
          have hdrop := (List.drop_sublist n rest).count_le OPEN
          rcases ih n with hsame | hless
          · exact hsame ▸ hdrop
          · exact hless.le.trans hdrop
        rw [List.count_append, hblank, Nat.zero_add, hopening, List.count_cons_self]
        exact Nat.lt_succ_of_le hle

theorem withoutComments_fixed {passes : ℕ} {visible : Units} (h : visible.count OPEN ≤ passes) :
    blankComments (withoutComments passes visible) = withoutComments passes visible := by
  induction passes generalizing visible with
  | zero =>
    rcases count_scan 0 visible with hsame | hless
    · exact hsame
    · exact absurd (hless.trans_le h) (Nat.not_lt_zero _)
  | succ passes ih =>
    rw [withoutComments]
    split
    · assumption
    · rename_i hchanged
      refine ih ?_
      rcases count_scan 0 visible with hsame | hless
      · exact absurd hsame hchanged
      · exact Nat.le_of_lt_succ (Nat.lt_of_lt_of_le hless h)

/-- **The loop ends** when there is no comment left to blank. -/
theorem blankComments_withoutNamesAndComments (part : Units) :
    blankComments (withoutNamesAndComments part) = withoutNamesAndComments part :=
  withoutComments_fixed le_rfl

/-- A match of `/<([^<>]*)>|[^\s<>]+/g`. -/
inductive Token
  | bracketed (content : Units)
  | word (text : Units)
  deriving DecidableEq

/-- `[^\s<>]` -/
def isWordUnit (u : UInt16) : Bool := !isSpaceUnit u && isInnerUnit u

/-- `matchAll`, of a text of which the next `skip` characters belong to a match. -/
def tokens : (skip : ℕ) → Units → List Token
  | _, [] => []
  | skip + 1, _ :: rest => tokens skip rest
  | 0, u :: rest =>
    let inner := rest.takeWhile isInnerUnit
    let more := rest.takeWhile isWordUnit
    if u = LESS ∧ (rest.drop inner.length).head? = some GREATER then
      .bracketed inner :: tokens (inner.length + 1) rest
    else if isWordUnit u then .word (u :: more) :: tokens more.length rest
    else tokens 0 rest

/-- `/<[^<>]*>/.test(visible)` -/
def hasBracketed : Units → Bool
  | [] => false
  | u :: rest =>
    (u = LESS && (rest.dropWhile isInnerUnit).head? = some GREATER) || hasBracketed rest

/-- `["']` -/
def isQuoteUnit (u : UInt16) : Bool := u = QUOTE || u = APOSTROPHE

/-- `withoutMailto(match[0]).replace(/^["']+|["']+$/g, "")` -/
def bareWord (text : Units) : Units := Words.trimBoth isQuoteUnit (withoutMailto text)

def Token.address : Token → Option Units
  | bracketed content => if withoutMailto content = [] then none else some (withoutMailto content)
  | word text => if AT_SIGN ∈ bareWord text then some (bareWord text) else none

def Token.otherWord : Token → Option Units
  | bracketed _ => none
  | word text =>
    if AT_SIGN ∈ bareWord text ∨ bareWord text = [] then none else some (bareWord text)

/-- What one part adds to the recipients. -/
def partRecipients (part : Units) : List Units :=
  let visible := withoutNamesAndComments part
  let addresses := (tokens 0 visible).filterMap Token.address
  let otherWords := (tokens 0 visible).filterMap Token.otherWord
  if addresses.isEmpty then [part]
  else if hasBracketed visible || part.contains QUOTE || otherWords.isEmpty then addresses
  else [SPACE].intercalate otherWords :: addresses

def parseRecipientText (text : Units) : List Units := (splitAddressList text).flatMap partRecipients

/-! ### What is sent -/

/-- The fields of a mail that name recipients. -/
structure RecipientFields (α : Type) where
  «to» : α
  cc : α
  bcc : α

variable (toLowerCase : Units → Units)

/-- The addresses of a field that were not seen before, and what is seen behind it. -/
def keepUnseen : List Units → (seen : List Units) → List Units × List Units
  | [], seen => ([], seen)
  | address :: addresses, seen =>
    let key := normalizedAddress toLowerCase address
    if key ∈ seen then keepUnseen addresses seen
    else
      let (kept, seen) := keepUnseen addresses (key :: seen)
      (address :: kept, seen)

def sendableRecipients (fields : RecipientFields Units) : RecipientFields (List Units) :=
  let («to», seen) := keepUnseen toLowerCase (parseRecipientText fields.«to») []
  let (cc, seen) := keepUnseen toLowerCase (parseRecipientText fields.cc) seen
  let (bcc, _) := keepUnseen toLowerCase (parseRecipientText fields.bcc) seen
  ⟨«to», cc, bcc⟩

end MailPortal.Recipients
