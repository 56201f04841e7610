import MailPortal.Lib.Lines
import MailPortal.Mime.Boundaries
import MailPortal.Mime.BodyOutput

/-!
# The Bounded MIME Splitter

`BoundedMimeSplitter` keeps mailsplit's reading of headers and its node tree, and scans body
bytes itself: a line is held back only while it may still be a boundary delimiter.

`Mailsplit` is what the scanner uses of its superclass: a state machine driven by whole
lines. The rest is the scanner: `consume` with its two loops, and `flushStream` for the end
of the input.
-/

namespace MailPortal.Mime

open Lines

/-- The hyphen. -/
def HYPHEN : UInt8 := 0x2d

/-- `MAILSPLIT_HEAD_STATE`. -/
def mailsplitHeadState : ℕ := 0x01

/-- `MAILSPLIT_BODY_STATE`. -/
def mailsplitBodyState : ℕ := 0x02

/-- The superclass: its parser state, the current node, the `_boundary` fields of that node
and its ancestors, whether a node is multipart, and the reading of a line. -/
structure Mailsplit (M Node Data : Type) where
  state : M → ℕ
  node : M → Node
  lineage : M → List (Option (List UInt8))
  multipart : M → Node → Bool
  processLine : M → (line : List UInt8) → (final : Bool) → Except MimeError (M × Option Data)

/-- Mailsplit has two parser states. -/
def Mailsplit.Regular {M Node Data : Type} (ms : Mailsplit M Node Data) : Prop :=
  ∀ base, ms.state base = mailsplitHeadState ∨ ms.state base = mailsplitBodyState

/-- `PackedPadding`: blanks as bits, a set bit for a tab. Bits beyond the length stay. -/
structure PackedPadding where
  bits : ℕ → Bool
  length : ℕ

namespace PackedPadding

def new : PackedPadding := ⟨fun _ => false, 0⟩

/-- Bits are only ever set. -/
def push (p : PackedPadding) (byte : UInt8) : PackedPadding where
  bits := if byte = TAB then Function.update p.bits p.length true else p.bits
  length := p.length + 1

def clear (p : PackedPadding) : PackedPadding := { p with length := 0 }

/-- What `drain` writes, slice by slice, before it clears the padding. -/
def bytes (p : PackedPadding) : List UInt8 :=
  (List.range p.length).map fun index => if p.bits index then TAB else SP

end PackedPadding

/-- A delimiter line that was found. -/
structure BoundaryMatch where
  boundary : List UInt8
  closing : Bool
  normalizedLine : List UInt8
  deriving DecidableEq

/-- `#normalizedBoundary`: the delimiter line of a boundary. -/
def normalizedBoundary (boundary : List UInt8) (closing : Bool) : List UInt8 :=
  [HYPHEN, HYPHEN] ++ boundary ++ (if closing then [HYPHEN, HYPHEN] else []) ++ [CR, LF]

/-- The fields of the splitter. -/
structure BoundedMimeSplitter (M Node Data : Type) where
  /-- The state of the superclass. -/
  base : M
  maxHeaderBytes : ℕ
  headerLine : List UInt8
  candidate : List UInt8
  candidateTrieNode : Option BoundaryTrieNode
  candidateClosingBoundary : Option BoundaryReference
  candidateClosingDashes : ℕ
  candidateBoundary : Option BoundaryMatch
  candidatePadding : PackedPadding
  candidateCarriageReturn : Bool
  pendingLineBreak : List UInt8
  streamingBodyLine : Bool
  streamingCarriageReturn : Bool
  out : BodyOutput Node Data
  boundaryCacheNode : Option Node
  boundaryCache : List (List UInt8)
  boundaryTrie : BoundaryTrieNode

namespace BoundedMimeSplitter

variable {M Node Data : Type} [DecidableEq Node] (ms : Mailsplit M Node Data)

/-- A new splitter over a new superclass. -/
def new (base : M) (maxHeaderBytes : ℕ) : BoundedMimeSplitter M Node Data where
  base := base
  maxHeaderBytes := maxHeaderBytes
  headerLine := []
  candidate := []
  candidateTrieNode := none
  candidateClosingBoundary := none
  candidateClosingDashes := 0
  candidateBoundary := none
  candidatePadding := .new
  candidateCarriageReturn := false
  pendingLineBreak := []
  streamingBodyLine := false
  streamingCarriageReturn := false
  out := .new
  boundaryCacheNode := none
  boundaryCache := []
  boundaryTrie := .empty

/-! ### The candidate line -/

/-- `#resetCandidate`. -/
def resetCandidate (s : BoundedMimeSplitter M Node Data) : BoundedMimeSplitter M Node Data :=
  { s with
    candidate := []
    candidateTrieNode := none
    candidateClosingBoundary := none
    candidateClosingDashes := 0
    candidateBoundary := none
    candidatePadding := s.candidatePadding.clear
    candidateCarriageReturn := false }

/-- `#appendCandidate`. -/
def appendCandidate (s : BoundedMimeSplitter M Node Data) (byte : UInt8) :
    BoundedMimeSplitter M Node Data :=
  { s with candidate := s.candidate ++ [byte] }

/-- `#couldExtendBoundary`. -/
def couldExtendBoundary (s : BoundedMimeSplitter M Node Data) (byte : UInt8) : Bool :=
  (s.candidateTrieNode.bind (·.child byte)).isSome ||
    (byte = HYPHEN && (s.candidateClosingDashes = 1 ||
      (s.candidateClosingDashes = 0 && (s.candidateTrieNode.bind Trie.value).isSome)))

/-- `#boundaries`, which leaves the boundaries of the current node in the cache. -/
def boundaries (s : BoundedMimeSplitter M Node Data) :
    Except MimeError (BoundedMimeSplitter M Node Data) :=
  if s.boundaryCacheNode = some (ms.node s.base) then .ok s
  else do
    let (boundaries, trie) ← collectBoundaries (ms.lineage s.base) [] .empty
    .ok { s with
      boundaryCacheNode := some (ms.node s.base)
      boundaryCache := boundaries
      boundaryTrie := trie }

/-- The closing dashes after one more byte. -/
def advanceClosing (s : BoundedMimeSplitter M Node Data) (byte : UInt8) :
    Option BoundaryReference × ℕ :=
  let boundary := s.candidateTrieNode.bind Trie.value
  if s.candidateClosingDashes = 1 && byte = HYPHEN then (s.candidateClosingBoundary, 2)
  else if s.candidateClosingDashes = 0 && boundary.isSome && byte = HYPHEN then (boundary, 1)
  else (none, 0)

/-- `#advanceBoundaryCandidates`: whether the candidate may still become a delimiter. -/
def advanceBoundaryCandidates (s : BoundedMimeSplitter M Node Data) (byte : UInt8) :
    Except MimeError (BoundedMimeSplitter M Node Data × Bool) :=
  if s.candidate.length < 2 then .ok (s, byte = HYPHEN)
  else if s.candidate.length = 2 then do
    let s ← s.boundaries ms
    let trieNode := s.boundaryTrie.child byte
    .ok ({ s with candidateTrieNode := trieNode }, trieNode.isSome)
  else
    let nextTrieNode := s.candidateTrieNode.bind (·.child byte)
    let (closingBoundary, closingDashes) := s.advanceClosing byte
    .ok ({ s with
        candidateTrieNode := nextTrieNode
        candidateClosingBoundary := closingBoundary
        candidateClosingDashes := closingDashes },
      nextTrieNode.isSome || closingBoundary.isSome)

/-- `#matchedCandidateBoundary`: the boundary that the candidate is a delimiter of. The
reading as an opening delimiter and the one as a closing delimiter compete by priority. -/
def matchedCandidateBoundary (s : BoundedMimeSplitter M Node Data) : Option BoundaryMatch :=
  let opening := s.candidateTrieNode.bind Trie.value
  let closing := if s.candidateClosingDashes = 2 then s.candidateClosingBoundary else none
  let select (reference : BoundaryReference) (closing : Bool) : BoundaryMatch :=
    ⟨reference.value, closing, normalizedBoundary reference.value closing⟩
  match opening, closing with
  | some opening, some closing =>
      if opening.priority ≤ closing.priority then some (select opening false)
      else some (select closing true)
  | some opening, none => some (select opening false)
  | none, some closing => some (select closing true)
  | none, none => none

/-- The delimiter that the line is found to be when it ends. -/
def lineBoundary (s : BoundedMimeSplitter M Node Data) : Option BoundaryMatch :=
  s.candidateBoundary.orElse fun _ => s.matchedCandidateBoundary

/-! ### Lines and body bytes -/

/-- `#processLine`. -/
def processLine (s : BoundedMimeSplitter M Node Data) (line : List UInt8) (final : Bool) :
    Except MimeError (BoundedMimeSplitter M Node Data) := do
  let (base, data) ← ms.processLine s.base line final
  match data with
  | none => .ok { s with base }
  | some data => .ok { s with base, out := s.out.push (.node data) }

/-- `#flushOutput`. -/
def flushOutput (s : BoundedMimeSplitter M Node Data) : BoundedMimeSplitter M Node Data :=
  { s with out := s.out.flush (ms.multipart s.base) }

/-- `#appendBody`, for the current node. -/
def appendBody (s : BoundedMimeSplitter M Node Data) (value : List UInt8) :
    BoundedMimeSplitter M Node Data :=
  { s with out := s.out.append (ms.multipart s.base) (ms.node s.base) value }

/-- `#processBoundary`: the boundaries inside the matched one are closed first. -/
def processBoundary (s : BoundedMimeSplitter M Node Data) (found : BoundaryMatch) (final : Bool) :
    Except MimeError (BoundedMimeSplitter M Node Data) := do
  let s ← s.boundaries ms
  let matchedIndex := s.boundaryCache.findIdx? (· = found.boundary)
  let s ← (s.boundaryCache.take (matchedIndex.getD 0)).foldlM (fun s boundary =>
    s.processLine ms (normalizedBoundary boundary true) false) s
  s.processLine ms found.normalizedLine final

/-- `#startOrdinaryBodyLine`: the line is no delimiter, and what was held back is body. -/
def startOrdinaryBodyLine (s : BoundedMimeSplitter M Node Data) :
    BoundedMimeSplitter M Node Data :=
  let s := { s.appendBody ms s.pendingLineBreak with pendingLineBreak := [] }
  let s := s.appendBody ms s.candidate
  let s := s.appendBody ms s.candidatePadding.bytes
  let s := if s.candidateCarriageReturn then s.appendBody ms [CR] else s
  { s.resetCandidate with streamingBodyLine := true }

/-- What comes before a delimiter is complete, the line break in front of it dropped. -/
def closeBody (s : BoundedMimeSplitter M Node Data) : BoundedMimeSplitter M Node Data :=
  { s.resetCandidate with pendingLineBreak := [] }.flushOutput ms

/-- `#finishCandidateLine`. -/
def finishCandidateLine (s : BoundedMimeSplitter M Node Data) (lineEnding : List UInt8) :
    Except MimeError (BoundedMimeSplitter M Node Data) :=
  match s.lineBoundary with
  | some boundary => (s.closeBody ms).processBoundary ms boundary false
  | none =>
      .ok { s.startOrdinaryBodyLine ms with
        pendingLineBreak := lineEnding
        streamingBodyLine := false }

/-! ### The scanner -/

/-- The line feed that ends a candidate line. -/
def lineFeedTurn (s : BoundedMimeSplitter M Node Data) :
    Except MimeError (BoundedMimeSplitter M Node Data) :=
  let ending := if s.candidateCarriageReturn || s.candidate.getLast? = some CR then [CR, LF]
    else [LF]
  let s := if s.candidateBoundary.isNone && ending.length = 2 && 0 < s.candidate.length then
      { s with candidate := s.candidate.dropLast }
    else s
  s.finishCandidateLine ms ending

/-- A turn of the loop that takes another byte of a candidate line. It says whether the byte
is used up. -/
def candidateTurn (s : BoundedMimeSplitter M Node Data) (byte : UInt8) :
    Except MimeError (BoundedMimeSplitter M Node Data × Bool) :=
  if s.candidateBoundary.isSome then
    if s.candidateCarriageReturn then .ok (s.startOrdinaryBodyLine ms, false)
    else if byte = SP || byte = TAB then
      .ok ({ s with candidatePadding := s.candidatePadding.push byte }, true)
    else if byte = CR then .ok ({ s with candidateCarriageReturn := true }, true)
    else .ok (s.startOrdinaryBodyLine ms, false)
  else if s.candidate.length = 0 && byte ≠ HYPHEN && byte ≠ CR then
    .ok ((s.appendCandidate byte).startOrdinaryBodyLine ms, true)
  else
    let boundary := s.matchedCandidateBoundary
    if (byte = SP || byte = TAB) && boundary.isSome && !s.couldExtendBoundary byte then
      .ok ({ s with
        candidateBoundary := boundary
        candidatePadding := s.candidatePadding.push byte }, true)
    else if byte = CR && boundary.isSome then
      .ok ({ s with candidateBoundary := boundary, candidateCarriageReturn := true }, true)
    else do
      let (s, remainsBoundaryPrefix) ← s.advanceBoundaryCandidates ms byte
      let s := s.appendCandidate byte
      let awaitingEmptyLineFeed := s.candidate.length = 1 && s.candidate.head? = some CR
      if !awaitingEmptyLineFeed && !remainsBoundaryPrefix then
        .ok (s.startOrdinaryBodyLine ms, true)
      else .ok (s, true)

/-- The body bytes of a line, up to the line feed if the chunk has one. -/
def streamTurn (s : BoundedMimeSplitter M Node Data) (chunk : List UInt8) :
    BoundedMimeSplitter M Node Data × List UInt8 :=
  let line := chunk.takeWhile (· ≠ LF)
  let hasCarriageReturn := line.getLast? = some CR
  let s := s.appendBody ms (if hasCarriageReturn then line.dropLast else line)
  match chunk.dropWhile (· ≠ LF) with
  | [] => ({ s with streamingCarriageReturn := hasCarriageReturn }, [])
  | _ :: rest =>
      ({ s with
        pendingLineBreak := if hasCarriageReturn then [CR, LF] else [LF]
        streamingBodyLine := false }, rest)

/-- The check on the header line that `#consume` makes each time it grows. -/
def growHeaderLine (s : BoundedMimeSplitter M Node Data) (bytes : List UInt8) :
    Except MimeError (BoundedMimeSplitter M Node Data) :=
  if s.maxHeaderBytes < (s.headerLine ++ bytes).length then .error .headerSizeExceeded
  else .ok { s with headerLine := s.headerLine ++ bytes }

/-- The header line that `#consume` has completed goes to mailsplit. -/
def finishHeaderLine (s : BoundedMimeSplitter M Node Data) :
    Except MimeError (BoundedMimeSplitter M Node Data) :=
  { s with headerLine := [] }.processLine ms s.headerLine false

mutual

/-- `#consumeBody`. The first argument bounds the number of turns. -/
def consumeBody : ℕ → BoundedMimeSplitter M Node Data → List UInt8 →
    Except MimeError (BoundedMimeSplitter M Node Data)
  | 0, s, _ => .ok s
  | _ + 1, s, [] => .ok s
  | turns + 1, s, byte :: rest =>
      if !s.streamingBodyLine then
        if byte = LF then do
          let s ← s.lineFeedTurn ms
          if ms.state s.base = mailsplitHeadState then consume turns s rest
          else consumeBody turns s rest
        else do
          let (s, used) ← s.candidateTurn ms byte
          consumeBody turns s (if used then rest else byte :: rest)
      else if s.streamingCarriageReturn then
        let s := { s with streamingCarriageReturn := false }
        if byte = LF then
          consumeBody turns { s with pendingLineBreak := [CR, LF], streamingBodyLine := false } rest
        else
          let (s, rest) := (s.appendBody ms [CR]).streamTurn ms (byte :: rest)
          consumeBody turns s rest
      else
        let (s, rest) := s.streamTurn ms (byte :: rest)
        consumeBody turns s rest

/-- `#consume`. The first argument bounds the number of turns. -/
def consume : ℕ → BoundedMimeSplitter M Node Data → List UInt8 →
    Except MimeError (BoundedMimeSplitter M Node Data)
  | 0, s, _ => .ok s
  | _ + 1, s, [] => .ok s
  | turns + 1, s, byte :: rest =>
      let chunk := byte :: rest
      if ms.state s.base = mailsplitHeadState then do
        let line := chunk.takeWhile (· ≠ LF)
        match chunk.dropWhile (· ≠ LF) with
        | [] => s.growHeaderLine line
        | lineFeed :: rest => do
            let s ← s.growHeaderLine (line ++ [lineFeed])
            let s ← s.finishHeaderLine ms
            consume turns s rest
      else if ms.state s.base ≠ mailsplitBodyState then .error .unsupportedState
      else consumeBody turns s chunk

end

/-- `_transform`. A byte takes three turns at most, and two more begin and end a chunk. -/
def transform (s : BoundedMimeSplitter M Node Data) (chunk : List UInt8) :
    Except MimeError (BoundedMimeSplitter M Node Data) :=
  consume ms (3 * chunk.length + 3) s chunk

/-- `_flush`. -/
def flushStream (s : BoundedMimeSplitter M Node Data) :
    Except MimeError (BoundedMimeSplitter M Node Data) :=
  if ms.state s.base = mailsplitHeadState then do
    let s ← s.processLine ms s.headerLine true
    .ok { s with headerLine := [] }
  else do
    let s := if s.streamingCarriageReturn then
        { s.appendBody ms [CR] with streamingCarriageReturn := false }
      else s
    let s ← (if !s.streamingBodyLine && (0 < s.candidate.length || s.candidateBoundary.isSome) then
        match s.lineBoundary with
        | some boundary => (s.closeBody ms).processBoundary ms boundary true
        | none => .ok (s.startOrdinaryBodyLine ms)
      else .ok s)
    let s := { s.appendBody ms s.pendingLineBreak with pendingLineBreak := [] }
    .ok (s.flushOutput ms)

/-- The chunks that come out for an input that arrives in chunks, or the error. -/
def split (base : M) (maxHeaderBytes : ℕ) (chunks : List (List UInt8)) :
    Except MimeError (List (SplitterChunk Node Data)) := do
  let s ← chunks.foldlM (transform ms) (new base maxHeaderBytes)
  let s ← s.flushStream ms
  .ok s.out.pushed

end BoundedMimeSplitter

end MailPortal.Mime
