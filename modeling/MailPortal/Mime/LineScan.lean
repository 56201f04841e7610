import MailPortal.Mime.ByteMachine
import MailPortal.Mime.DelimiterGrammar

/-!
# Scanning a Body Line

What the splitter's state is after the first bytes of a body line, up to its line feed. A
line is held back (`Held`), is a delimiter with padding so far (`PaddedState`), or is an
ordinary line of which all is written but a carriage return at its end (`Ordinary`).

Main result: `scan`, the state after any bytes of a line is one of the three; in the third
case the line is `Dead`.
-/

namespace MailPortal.Mime

open Lines Failure

variable {before after line : List UInt8} {b x : UInt8}

namespace BoundedMimeSplitter

variable {M Node Data : Type} [DecidableEq Node] {ms : Mailsplit M Node Data}
  {boundaries : List (List UInt8)} {s t : BoundedMimeSplitter M Node Data}

/-! ### The boundaries of the current node -/

/-- These are the boundaries that the splitter looks up, or has looked up, for the current
node. -/
def HasBoundaries (ms : Mailsplit M Node Data) (boundaries : List (List UInt8))
    (s : BoundedMimeSplitter M Node Data) : Prop :=
  if s.boundaryCacheNode = some (ms.node s.base) then
    s.boundaryCache = boundaries ∧ Indexes s.boundaryTrie boundaries
  else ∃ trie, collectBoundaries (ms.lineage s.base) [] .empty = .ok (boundaries, trie)

/-- The cache with the boundaries of the current node. -/
def setBoundaries (ms : Mailsplit M Node Data) (s : BoundedMimeSplitter M Node Data)
    (boundaries : List (List UInt8)) (trie : BoundaryTrieNode) : BoundedMimeSplitter M Node Data :=
  { s with
    boundaryCacheNode := some (ms.node s.base)
    boundaryCache := boundaries
    boundaryTrie := trie }

/-- Looking up the boundaries fills the cache. -/
theorem HasBoundaries.lookup (h : HasBoundaries ms boundaries s) :
    ∃ trie, Indexes trie boundaries ∧
      s.boundaries ms = .ok (s.setBoundaries ms boundaries trie) := by
  rw [HasBoundaries] at h
  split at h
  · next hnode =>
    refine ⟨s.boundaryTrie, h.2, ?_⟩
    rw [BoundedMimeSplitter.boundaries, if_pos hnode, setBoundaries, ← hnode, ← h.1]
  · next hnode =>
    obtain ⟨trie, hcollect⟩ := h
    refine ⟨trie, Indexes.empty.collect hcollect, ?_⟩
    rw [BoundedMimeSplitter.boundaries, if_neg hnode, hcollect]
    rfl

theorem HasBoundaries.nonempty (h : HasBoundaries ms boundaries s) :
    ∀ b ∈ boundaries, b ≠ [] := by
  obtain ⟨trie, htrie, -⟩ := h.lookup
  exact htrie.nonempty

/-! ### Following the trie -/

/-- The closing dashes that have been counted for a text, and the boundary they close. -/
inductive Closing (boundaries : List (List UInt8)) (text : List UInt8) :
    Option BoundaryReference → ℕ → Prop
  | none (h : ∀ b, closable boundaries b = true →
      text ≠ b ++ [HYPHEN] ∧ text ≠ b ++ [HYPHEN, HYPHEN]) : Closing boundaries text none 0
  | one (r : BoundaryReference) (hr : closable boundaries r.value = true)
      (h : text = r.value ++ [HYPHEN]) : Closing boundaries text (some r) 1
  | two (r : BoundaryReference) (hr : closable boundaries r.value = true)
      (h : text = r.value ++ [HYPHEN, HYPHEN]) : Closing boundaries text (some r) 2

/-- The scanner's place in the trie, for the text after the two leading bytes. -/
structure Track (boundaries : List (List UInt8)) (text : List UInt8)
    (s : BoundedMimeSplitter M Node Data) : Prop where
  indexes : Indexes s.boundaryTrie boundaries
  nonempty : text ≠ []
  alive : HeldText boundaries text
  node : s.candidateTrieNode = s.boundaryTrie.walk text
  closing : Closing boundaries text s.candidateClosingBoundary s.candidateClosingDashes

variable {text : List UInt8}

omit [DecidableEq Node] in
/-- The boundary at the scanner's place is the text itself. -/
theorem Track.opening (h : Track boundaries text s) :
    ((s.candidateTrieNode.bind Trie.value).isSome ↔ text ∈ boundaries) ∧
      ∀ r, s.candidateTrieNode.bind Trie.value = some r → r.value = text := by
  rw [h.node]
  refine ⟨⟨fun hsome => ?_, h.indexes.find text⟩, fun r hr => (h.indexes.lookup text r hr).2⟩
  obtain ⟨r, hr⟩ := Option.isSome_iff_exists.mp hsome
  exact (h.indexes.lookup text r hr).1

omit [DecidableEq Node] in
/-- The trie goes on where some boundary does. -/
theorem Track.child (h : Track boundaries text s) (c : UInt8) :
    (s.candidateTrieNode.bind (·.child c)).isSome ↔ ∃ b ∈ boundaries, (text ++ [c]) <+: b := by
  rw [h.node, ← Trie.walk_concat, h.indexes.walk]
  simp

/-- A closable boundary is no other one with dashes added. -/
theorem closable_ne {b b' : List UInt8} (hb : closable boundaries b = true)
    (hb' : closable boundaries b' = true) :
    b ≠ b' ++ [HYPHEN] ∧ b ≠ b' ++ [HYPHEN, HYPHEN] :=
  (closable_iff.mp hb).2 b' hb'

omit [DecidableEq Node] in
section

variable (h : Track boundaries text s)
include h

/-- One more byte, and the dashes are counted right. -/
theorem Track.advance (c : UInt8) :
    Closing boundaries (text ++ [c]) (s.advanceClosing c).1 (s.advanceClosing c).2 := by
  obtain ⟨hopening, hvalue⟩ := h.opening
  have hclosing := h.closing
  have htwo : ∀ b : List UInt8, b ++ [HYPHEN, HYPHEN] = (b ++ [HYPHEN]) ++ [HYPHEN] := by simp
  have hlast : ∀ b : List UInt8, text ++ [c] = b ++ [HYPHEN] → text = b ∧ c = HYPHEN := by
    intro b hb
    obtain ⟨htext, hc⟩ := List.append_inj' hb rfl
    exact ⟨htext, (List.cons.inj hc).1⟩
  rw [advanceClosing]
  by_cases hc : c = HYPHEN
  · subst hc
    generalize s.candidateClosingBoundary = ref at hclosing
    generalize s.candidateClosingDashes = d at hclosing
    generalize s.candidateTrieNode.bind Trie.value = opening at hopening hvalue
    cases hclosing with
    | none hnone =>
        cases opening with
        | some r =>
            have hclosable : closable boundaries text = true :=
              closable_iff.mpr ⟨hopening.mp rfl, hnone⟩
            rw [← hvalue r rfl] at hclosable ⊢
            exact .one r hclosable rfl
        | none =>
            refine .none fun b hb => ⟨fun heq => ?_, fun heq => ?_⟩
            · obtain ⟨rfl, -⟩ := hlast b heq
              exact absurd (hopening.mpr (closable_mem hb)) nofun
            · rw [htwo] at heq
              exact (hnone b hb).1 (hlast _ heq).1
    | one r hr htext => exact .two r hr (by rw [htext, htwo])
    | two r hr htext =>
        refine .none fun b hb => ⟨fun heq => ?_, fun heq => ?_⟩
        · exact (closable_ne hb hr).2 ((hlast b heq).1.symm.trans htext)
        · rw [htwo] at heq
          have hb' := (hlast _ heq).1.symm.trans htext
          rw [htwo] at hb'
          exact (closable_ne hb hr).1 (List.append_inj' hb' rfl).1
  · have hnone : Closing boundaries (text ++ [c]) none 0 := by
      refine .none fun b _ => ⟨fun heq => hc (hlast b heq).2, fun heq => ?_⟩
      rw [htwo] at heq
      exact hc (hlast _ heq).2
    simpa [hc] using hnone

omit [DecidableEq Node] in
/-- The scanner matches the text when it is a stem. -/
theorem Track.matched : s.matchedCandidateBoundary.isSome ↔ Stem boundaries text := by
  obtain ⟨hopening, -⟩ := h.opening
  have hclosing := h.closing
  have hiff : s.matchedCandidateBoundary.isSome ↔
      (s.candidateTrieNode.bind Trie.value).isSome ∨
        (if s.candidateClosingDashes = 2 then s.candidateClosingBoundary else none).isSome := by
    rw [matchedCandidateBoundary]
    cases s.candidateTrieNode.bind Trie.value <;>
      cases (if s.candidateClosingDashes = 2 then s.candidateClosingBoundary else none)
    · simp
    · simp
    · simp
    · dsimp only
      split <;> simp
  rw [hiff, hopening, Stem]
  refine or_congr_right ?_
  generalize s.candidateClosingBoundary = ref at hclosing
  generalize s.candidateClosingDashes = d at hclosing
  cases hclosing with
  | none hnone => simpa using fun b hb => (hnone b hb).2
  | one r hr htext =>
      have hne : ¬ ∃ b, closable boundaries b = true ∧ text = b ++ [HYPHEN, HYPHEN] := by
        rintro ⟨b, hb, heq⟩
        have hsplit : r.value ++ [HYPHEN] = (b ++ [HYPHEN]) ++ [HYPHEN] := by
          rw [← htext, heq]
          simp
        exact (closable_ne hr hb).1 (List.append_inj' hsplit rfl).1
      simpa using hne
  | two r hr htext => simpa using ⟨r.value, hr, htext⟩

omit [DecidableEq Node] in
/-- What is matched is one of the boundaries. -/
theorem Track.matched_mem {found : BoundaryMatch}
    (hfound : s.matchedCandidateBoundary = some found) :
    found.boundary ∈ boundaries := by
  obtain ⟨hopening, hvalue⟩ := h.opening
  have hopen : ∀ r, s.candidateTrieNode.bind Trie.value = some r → r.value ∈ boundaries := by
    intro r hr
    rw [hvalue r hr]
    exact hopening.mp (by rw [hr]; rfl)
  have hclose : ∀ r, (if s.candidateClosingDashes = 2 then s.candidateClosingBoundary else none) =
      some r → r.value ∈ boundaries := by
    intro r hr
    split at hr
    · next htwo =>
      have hclosing := h.closing
      rw [hr, htwo] at hclosing
      cases hclosing with
      | two _ hr => exact closable_mem hr
    · cases hr
  rw [matchedCandidateBoundary] at hfound
  generalize s.candidateTrieNode.bind Trie.value = opening at hopen hfound
  generalize (if s.candidateClosingDashes = 2 then s.candidateClosingBoundary else none) = closing
    at hclose hfound
  cases opening with
  | some opening =>
      cases closing with
      | some closing =>
          dsimp only at hfound
          split at hfound <;> cases hfound
          · exact hopen opening rfl
          · exact hclose closing rfl
      | none =>
          cases hfound
          exact hopen opening rfl
  | none =>
      cases closing with
      | some closing =>
          cases hfound
          exact hclose closing rfl
      | none => cases hfound

omit [DecidableEq Node] in
/-- A text that is matched goes on being held when a boundary or a closing dash follows. -/
theorem Track.held : ∀ c,
    ((s.candidateTrieNode.bind (·.child c)).isSome || (s.advanceClosing c).1.isSome) = true ↔
      HeldText boundaries (text ++ [c]) := by
  intro c
  have hadvance := h.advance c
  rw [Bool.or_eq_true, h.child]
  generalize (s.advanceClosing c).1 = ref at hadvance ⊢
  generalize (s.advanceClosing c).2 = d at hadvance
  constructor
  · rintro (hchild | hclosing)
    · exact .inr (.inl hchild)
    · cases hadvance with
      | none => cases hclosing
      | one r hr htext => exact .inr (.inr ⟨r.value, hr, .inl htext⟩)
      | two r hr htext => exact .inr (.inr ⟨r.value, hr, .inr htext⟩)
  · rintro (hnil | hchild | ⟨b, hb, hclosing⟩)
    · simp at hnil
    · exact .inl hchild
    · cases hadvance with
      | none hnone => exact absurd hclosing (not_or.mpr (hnone b hb))
      | one r hr htext => exact .inr rfl
      | two r hr htext => exact .inr rfl

omit [DecidableEq Node] in
/-- A blank extends the text when it extends a boundary. -/
theorem Track.couldExtend {c : UInt8} (hc : isBlankByte c = true) :
    s.couldExtendBoundary c = true ↔ ∃ b ∈ boundaries, (text ++ [c]) <+: b := by
  rw [couldExtendBoundary, ← h.child]
  simp [blank_ne_hyphen hc]

end

/-! ### The states of a line -/

/-- What the bytes of a line leave as it was. -/
structure Kept (ms : Mailsplit M Node Data) (boundaries : List (List UInt8))
    (s t : BoundedMimeSplitter M Node Data) : Prop where
  base : t.base = s.base
  active : HasBoundaries ms boundaries t

/-- Nothing of the line has been written. -/
structure Waiting (ms : Mailsplit M Node Data) (boundaries : List (List UInt8))
    (s t : BoundedMimeSplitter M Node Data) : Prop extends Kept ms boundaries s t where
  streaming : t.streamingBodyLine = false
  noReturn : t.streamingCarriageReturn = false
  pending : t.pendingLineBreak = s.pendingLineBreak
  out : t.out = s.out

/-- The line is held back: it may still become a delimiter, without padding so far. -/
structure Held (ms : Mailsplit M Node Data) (boundaries : List (List UInt8))
    (s t : BoundedMimeSplitter M Node Data) (line : List UInt8) : Prop
    extends Waiting ms boundaries s t where
  candidate : t.candidate = line
  boundary : t.candidateBoundary = none
  padding : t.candidatePadding = s.candidatePadding
  carriageReturn : t.candidateCarriageReturn = false
  place : t.candidateTrieNode = none ∧ t.candidateClosingBoundary = none ∧
      t.candidateClosingDashes = 0 ∧ (line = [] ∨ ∃ x, Lead x ∧ (line = [x] ∨ line = [x, HYPHEN])) ∨
    ∃ x text, Lead x ∧ line = x :: HYPHEN :: text ∧ Track boundaries text t

/-- The line is a delimiter with padding, or with a carriage return, so far. -/
structure PaddedState (ms : Mailsplit M Node Data) (boundaries : List (List UInt8))
    (s t : BoundedMimeSplitter M Node Data) (line : List UInt8) : Prop
    extends Waiting ms boundaries s t where
  boundary : ∃ found, t.candidateBoundary = some found ∧ found.boundary ∈ boundaries
  parts : ∃ x u pad,
    PaddedLine boundaries line x u pad (if t.candidateCarriageReturn then [CR] else []) ∧
    (pad = [] → t.candidateCarriageReturn = true) ∧ t.candidate = x :: HYPHEN :: u ∧
    t.candidatePadding = pad.foldl PackedPadding.push s.candidatePadding

/-- The line is ordinary. All of it is written, its padding from the packed bits, but for a
carriage return at its end. -/
structure Ordinary (ms : Mailsplit M Node Data) (boundaries : List (List UInt8))
    (s t : BoundedMimeSplitter M Node Data) (before pad after : List UInt8) : Prop
    extends Kept ms boundaries s t where
  streaming : t.streamingBodyLine = true
  fresh : t.resetCandidate = t
  pending : t.pendingLineBreak = []
  padding : t.candidatePadding = (pad.foldl PackedPadding.push s.candidatePadding).clear
  written : ∃ value, t.out = s.out.append (ms.multipart s.base) (ms.node s.base)
      (s.pendingLineBreak ++ value) ∧
    value ++ (if t.streamingCarriageReturn then [CR] else []) =
      before ++ (pad.foldl PackedPadding.push s.candidatePadding).bytes ++ after

/-- The state at the start of a body line. -/
structure LineStart (ms : Mailsplit M Node Data) (boundaries : List (List UInt8))
    (s : BoundedMimeSplitter M Node Data) : Prop where
  body : ms.state s.base ≠ mailsplitHeadState
  fresh : s.resetCandidate = s
  streaming : s.streamingBodyLine = false
  noReturn : s.streamingCarriageReturn = false
  active : HasBoundaries ms boundaries s
  no_cr : ∀ b ∈ boundaries, CR ∉ b

theorem LineStart.held (h : LineStart ms boundaries s) : Held ms boundaries s s [] := by
  have hfresh := h.fresh
  refine ⟨⟨⟨rfl, h.active⟩, h.streaming, h.noReturn, rfl, rfl⟩, ?_, ?_, rfl, ?_, ?_⟩
  · rw [← hfresh]; rfl
  · rw [← hfresh]; rfl
  · rw [← hfresh]; rfl
  · rw [← hfresh]
    exact .inl ⟨rfl, rfl, rfl, .inl rfl⟩

theorem LineStart.padding (h : LineStart ms boundaries s) : s.candidatePadding.length = 0 := by
  rw [← h.fresh]
  rfl

/-! ### One byte more -/

section

variable {pad : List UInt8} (h : Ordinary ms boundaries s t before pad after)
include h

/-- The carriage return that was held back is written. -/
theorem Ordinary.release (hcr : t.streamingCarriageReturn = true) :
    Ordinary ms boundaries s ((t.setReturn false).appendBody ms [CR]) before pad after := by
  obtain ⟨value, hout, hvalue⟩ := h.written
  refine ⟨⟨h.base, h.active⟩, h.streaming, ?_, h.pending, h.padding, value ++ [CR], ?_, ?_⟩
  · exact congrArg (fun t => (setReturn t false).appendBody ms [CR]) h.fresh
  · rw [appendBody, setReturn, h.base, hout, BodyOutput.append_append, List.append_assoc]
  · rw [hcr, if_pos rfl] at hvalue
    rw [← hvalue]
    exact List.append_nil _

/-- A byte, with no carriage return held back. -/
theorem Ordinary.plainByte (hcr : t.streamingCarriageReturn = false) (hb : b ≠ LF) :
    Ordinary ms boundaries s (t.plainByte ms b) before pad (after ++ [b]) := by
  obtain ⟨value, hout, hvalue⟩ := h.written
  rw [hcr, if_neg Bool.false_ne_true, List.append_nil] at hvalue
  by_cases hbcr : b = CR
  · subst hbcr
    rw [plainByte_cr]
    refine ⟨⟨h.base, h.active⟩, h.streaming, congrArg (setReturn · true) h.fresh, h.pending,
      h.padding, value, hout, ?_⟩
    rw [hvalue, ← List.append_assoc]
    rfl
  · rw [plainByte_of_ne t hb hbcr]
    refine ⟨⟨h.base, h.active⟩, h.streaming, congrArg (appendBody ms · [b]) h.fresh, h.pending,
      h.padding, value ++ [b], ?_, ?_⟩
    · rw [appendBody, h.base, hout, BodyOutput.append_append, List.append_assoc]
    · rw [show (t.appendBody ms [b]).streamingCarriageReturn = false from hcr,
        if_neg Bool.false_ne_true,
        List.append_nil, hvalue, List.append_assoc]

/-- A byte of a line that is ordinary. -/
theorem Ordinary.streamByte (hb : b ≠ LF) :
    Ordinary ms boundaries s (t.streamByte ms b) before pad (after ++ [b]) := by
  rw [BoundedMimeSplitter.streamByte, if_neg hb]
  split
  · next hcr => exact (h.release hcr).plainByte rfl hb
  · next hcr => exact h.plainByte (by simpa using hcr) hb

end

/-- A line turns out to be ordinary, and what was held back of it is written. -/
theorem ordinary_of_waiting {pad : List UInt8} (h : Waiting ms boundaries s t)
    (hpadding : t.candidatePadding = pad.foldl PackedPadding.push s.candidatePadding)
    (hcandidate : t.candidate ++ t.candidatePadding.bytes ++
      (if t.candidateCarriageReturn then [CR] else []) =
      before ++ (pad.foldl PackedPadding.push s.candidatePadding).bytes ++ after) :
    Ordinary ms boundaries s (t.startOrdinaryBodyLine ms) before pad after := by
  rw [startOrdinaryBodyLine_eq]
  refine ⟨⟨h.base, h.active⟩, rfl, rfl, rfl, congrArg PackedPadding.clear hpadding,
    t.candidate ++ t.candidatePadding.bytes ++ (if t.candidateCarriageReturn then [CR] else []),
    ?_, ?_⟩
  · simp only [appendBody, resetCandidate, h.base, h.out, h.pending, List.append_assoc]
  · have hcr : t.streamingCarriageReturn = false := h.noReturn
    show _ ++ (if t.streamingCarriageReturn then [CR] else []) = _
    simp only [hcr, Bool.false_eq_true, if_false, List.append_nil]
    exact hcandidate

/-- What a line start, or the bytes of a line, have led to. -/
def Scanned (ms : Mailsplit M Node Data) (boundaries : List (List UInt8))
    (s t : BoundedMimeSplitter M Node Data) (line : List UInt8) : Prop :=
  Held ms boundaries s t line ∨ PaddedState ms boundaries s t line ∨
    ∃ before pad after, Ordinary ms boundaries s t before pad after ∧
      LinePad boundaries line before pad after ∧ Dead boundaries line

variable {line : List UInt8} {t' : BoundedMimeSplitter M Node Data}

/-- A held line that dies with one more byte. -/
theorem Held.die (h : Held ms boundaries s t line) (hlength : s.candidatePadding.length = 0)
    {b : UInt8} (hdead : Dead boundaries (line ++ [b]) ∧
      LinePad boundaries (line ++ [b]) (line ++ [b]) [] []) (ht' : Waiting ms boundaries s t')
    (hcandidate : t'.candidate = t.candidate) (hpadding : t'.candidatePadding = t.candidatePadding)
    (hcr : t'.candidateCarriageReturn = t.candidateCarriageReturn) :
    Scanned ms boundaries s ((t'.appendCandidate b).startOrdinaryBodyLine ms) (line ++ [b]) := by
  refine .inr (.inr ⟨line ++ [b], [], [], ordinary_of_waiting ?_ ?_ ?_, hdead.2, hdead.1⟩)
  · exact ⟨⟨ht'.base, ht'.active⟩, ht'.streaming, ht'.noReturn, ht'.pending, ht'.out⟩
  · exact hpadding.trans h.padding
  · show (t'.candidate ++ [b]) ++ t'.candidatePadding.bytes ++
      (if t'.candidateCarriageReturn then [CR] else []) = _
    rw [hcandidate, h.candidate, hpadding, h.padding, hcr, h.carriageReturn]
    simp [PackedPadding.bytes, hlength]

/-- A held line that lives on with one more byte. -/
theorem Held.grow (h : Held ms boundaries s t line) {b : UInt8} (ht' : Waiting ms boundaries s t')
    (hcandidate : t'.candidate = t.candidate) (hpadding : t'.candidatePadding = t.candidatePadding)
    (hcr : t'.candidateCarriageReturn = t.candidateCarriageReturn)
    (hboundary : t'.candidateBoundary = t.candidateBoundary)
    (hplace : t'.candidateTrieNode = none ∧ t'.candidateClosingBoundary = none ∧
        t'.candidateClosingDashes = 0 ∧
        (∃ x, Lead x ∧ (line ++ [b] = [x] ∨ line ++ [b] = [x, HYPHEN])) ∨
      ∃ x text, Lead x ∧ line ++ [b] = x :: HYPHEN :: text ∧ Track boundaries text t') :
    Scanned ms boundaries s (t'.appendCandidate b) (line ++ [b]) := by
  refine .inl ⟨⟨⟨ht'.base, ht'.active⟩, ht'.streaming, ht'.noReturn, ht'.pending, ht'.out⟩,
    ?_, ?_, ?_, ?_, ?_⟩
  · exact congrArg (· ++ [b]) (hcandidate.trans h.candidate)
  · exact hboundary.trans h.boundary
  · exact hpadding.trans h.padding
  · exact hcr.trans h.carriageReturn
  · rcases hplace with ⟨hnode, hclosing, hdashes, hline⟩ | ⟨x, text, hx, hline, htrack⟩
    · exact .inl ⟨hnode, hclosing, hdashes, .inr hline⟩
    · exact .inr ⟨x, text, hx, hline, ⟨htrack.indexes, htrack.nonempty, htrack.alive, htrack.node,
        htrack.closing⟩⟩

/-- The state after an advance by one byte. -/
def settleAdvance (ms : Mailsplit M Node Data) (t : BoundedMimeSplitter M Node Data)
    (remains : Bool) : BoundedMimeSplitter M Node Data :=
  if !(t.candidate.length = 1 && t.candidate.head? = some CR : Bool) && !remains then
    t.startOrdinaryBodyLine ms
  else t

/-- The first bytes of a line: a lead and a dash. -/
theorem Held.advance_start (hstart : LineStart ms boundaries s) (h : Held ms boundaries s t line)
    (hnode : t.candidateTrieNode = none) (hclosing : t.candidateClosingBoundary = none)
    (hdashes : t.candidateClosingDashes = 0) (hline : line = [] ∨ ∃ x, Lead x ∧ line = [x])
    (b : UInt8) :
    ∃ t' remains, t.advanceBoundaryCandidates ms b = .ok (t', remains) ∧
      Scanned ms boundaries s (settleAdvance ms (t'.appendCandidate b) remains) (line ++ [b]) := by
  have hcandidate := h.candidate
  have hshort : t.candidate.length < 2 := by
    rw [hcandidate]
    rcases hline with rfl | ⟨x, -, rfl⟩ <;> simp
  refine ⟨t, b = HYPHEN, by rw [advanceBoundaryCandidates, if_pos hshort], ?_⟩
  have hgrow : (∃ x, Lead x ∧ (line ++ [b] = [x] ∨ line ++ [b] = [x, HYPHEN])) →
      Scanned ms boundaries s (t.appendCandidate b) (line ++ [b]) := fun hnew =>
    h.grow h.toWaiting rfl rfl rfl rfl (.inl ⟨hnode, hclosing, hdashes, hnew⟩)
  have hdie : (∀ x, Lead x → ∀ rest, (line ++ [b]) ++ rest ≠ [x] ∧
      ∀ text, (line ++ [b]) ++ rest ≠ x :: HYPHEN :: text) →
      Scanned ms boundaries s ((t.appendCandidate b).startOrdinaryBodyLine ms) (line ++ [b]) :=
    fun hne => h.die hstart.padding (dead_of_start hne) h.toWaiting rfl rfl rfl
  have hnew : (t.appendCandidate b).candidate = line ++ [b] := congrArg (· ++ [b]) hcandidate
  rw [settleAdvance, hnew]
  by_cases hb : b = HYPHEN
  · rw [if_neg (by simp [hb])]
    refine hgrow ?_
    rcases hline with rfl | ⟨x, hx, rfl⟩
    · exact ⟨b, .inl hb, .inl rfl⟩
    · exact ⟨x, hx, .inr (by rw [hb]; rfl)⟩
  · rcases hline with rfl | ⟨x, hx, rfl⟩
    · by_cases hcr : b = CR
      · rw [if_neg (by simp [hcr])]
        exact hgrow ⟨b, .inr hcr, .inl rfl⟩
      · rw [if_pos (by simp [hcr, hb])]
        refine hdie fun x hx rest => ⟨fun heq => ?_, fun text heq => ?_⟩
        · exact hx.elim ((List.cons.inj heq).1 ▸ hb) ((List.cons.inj heq).1 ▸ hcr)
        · exact hx.elim ((List.cons.inj heq).1 ▸ hb) ((List.cons.inj heq).1 ▸ hcr)
    · rw [if_pos (by simp [hb])]
      refine hdie fun x' _ rest => ⟨fun heq => ?_, fun text heq => ?_⟩
      · cases (List.cons.inj heq).2
      · exact hb (List.cons.inj (List.cons.inj heq).2).1

/-- No stem is shorter than a byte. -/
theorem stem_ne_nil (hne : ∀ b ∈ boundaries, b ≠ []) {u : List UInt8} (h : Stem boundaries u) :
    u ≠ [] := by
  rcases h with h | ⟨b, -, rfl⟩
  · exact hne u h
  · simp

section

variable (hstart : LineStart ms boundaries s)
include hstart

/-- The first byte of the text leads into the trie. -/
theorem Held.advance_first (hx : Lead x) (h : Held ms boundaries s t [x, HYPHEN])
    (hclosing : t.candidateClosingBoundary = none) (hdashes : t.candidateClosingDashes = 0)
    (b : UInt8) :
    ∃ t' remains, t.advanceBoundaryCandidates ms b = .ok (t', remains) ∧
      Scanned ms boundaries s (settleAdvance ms (t'.appendCandidate b) remains)
        ([x, HYPHEN] ++ [b]) := by
  obtain ⟨trie, htrie, hlookup⟩ := h.active.lookup
  have hcandidate := h.candidate
  let t₁ : BoundedMimeSplitter M Node Data :=
    { t.setBoundaries ms boundaries trie with candidateTrieNode := trie.child b }
  have hadvance : t.advanceBoundaryCandidates ms b = .ok (t₁, (trie.child b).isSome) := by
    rw [advanceBoundaryCandidates, hcandidate, if_neg (by simp), if_pos (by simp), hlookup]
    rfl
  have hactive : HasBoundaries ms boundaries t₁ := by
    rw [HasBoundaries, if_pos (show t₁.boundaryCacheNode = some (ms.node t₁.base) from rfl)]
    exact ⟨rfl, htrie⟩
  have hwaiting : Waiting ms boundaries s t₁ :=
    ⟨⟨h.base, hactive⟩, h.streaming, h.noReturn, h.pending, h.out⟩
  have hnone : ∀ b', closable boundaries b' = true →
      [b] ≠ b' ++ [HYPHEN] ∧ [b] ≠ b' ++ [HYPHEN, HYPHEN] := by
    intro b' hb'
    have hpos := List.length_pos_iff.mpr (htrie.nonempty b' (closable_mem hb'))
    refine ⟨fun heq => ?_, fun heq => ?_⟩ <;>
      · have hlength := congrArg List.length heq
        simp only [List.length_append, List.length_cons, List.length_nil] at hlength
        omega
  have hwalk : trie.child b = trie.walk [b] := by
    rw [Trie.walk_cons]
    cases trie.child b <;> rfl
  refine ⟨t₁, (trie.child b).isSome, hadvance, ?_⟩
  have hnew : (t₁.appendCandidate b).candidate = [x, HYPHEN] ++ [b] :=
    congrArg (· ++ [b]) hcandidate
  rw [settleAdvance, hnew]
  cases hchild : (trie.child b).isSome with
  | true =>
      rw [if_neg (by simp)]
      refine h.grow hwaiting rfl rfl rfl rfl (.inr ⟨x, [b], hx, rfl, ?_⟩)
      have hextends := (htrie.walk [b]).mp (hwalk ▸ hchild)
      have hboundary := hextends.resolve_left (List.cons_ne_nil b [])
      refine ⟨htrie, List.cons_ne_nil b [], .inr (.inl hboundary), hwalk, ?_⟩
      show Closing boundaries [b] t.candidateClosingBoundary t.candidateClosingDashes
      rw [hclosing, hdashes]
      exact .none hnone
  | false =>
      rw [if_pos (by simp)]
      have hstem : ¬ Stem boundaries [] := fun hstem => stem_ne_nil htrie.nonempty hstem rfl
      have hnil : HeldText boundaries [] := .inl rfl
      refine h.die hstart.padding (dead_of_held hstart.no_cr hnil ?_
        (fun hs => absurd hs hstem) fun hs => absurd hs hstem) hwaiting rfl rfl rfl
      rintro (hnil | hextends | ⟨b', hb', heq⟩)
      · cases hnil
      · have hsome := (htrie.walk [b]).mpr (.inr hextends)
        rw [← hwalk, hchild] at hsome
        cases hsome
      · exact heq.elim (hnone b' hb').1 (hnone b' hb').2

/-- The text goes on through the trie, or through the closing dashes. -/
theorem Held.advance_next (hx : Lead x) {text : List UInt8}
    (h : Held ms boundaries s t (x :: HYPHEN :: text)) (htrack : Track boundaries text t)
    (hpad : Stem boundaries text → isBlankByte b = true → ∃ b' ∈ boundaries, (text ++ [b]) <+: b')
    (hend : Stem boundaries text → b ≠ CR) :
    ∃ t' remains, t.advanceBoundaryCandidates ms b = .ok (t', remains) ∧
      Scanned ms boundaries s (settleAdvance ms (t'.appendCandidate b) remains)
        (x :: HYPHEN :: text ++ [b]) := by
  have hcandidate := h.candidate
  have hpos := List.length_pos_iff.mpr htrack.nonempty
  let t₁ : BoundedMimeSplitter M Node Data :=
    { t with
      candidateTrieNode := t.candidateTrieNode.bind (·.child b)
      candidateClosingBoundary := (t.advanceClosing b).1
      candidateClosingDashes := (t.advanceClosing b).2 }
  have hadvance : t.advanceBoundaryCandidates ms b =
      .ok (t₁, (t.candidateTrieNode.bind (·.child b)).isSome || (t.advanceClosing b).1.isSome) := by
    have hlong : 2 < t.candidate.length := by
      rw [hcandidate, List.length_cons, List.length_cons]
      omega
    rw [advanceBoundaryCandidates, if_neg (by omega), if_neg (by omega)]
  have hwaiting : Waiting ms boundaries s t₁ :=
    ⟨⟨h.base, h.active⟩, h.streaming, h.noReturn, h.pending, h.out⟩
  refine ⟨t₁, _, hadvance, ?_⟩
  have hnew : (t₁.appendCandidate b).candidate = x :: HYPHEN :: text ++ [b] :=
    congrArg (· ++ [b]) hcandidate
  rw [settleAdvance, hnew]
  have hheld := htrack.held b
  generalize ((t.candidateTrieNode.bind (·.child b)).isSome || (t.advanceClosing b).1.isSome) =
    remains at hheld ⊢
  cases remains with
  | true =>
      rw [if_neg (by simp)]
      refine h.grow hwaiting rfl rfl rfl rfl (.inr ⟨x, text ++ [b], hx, rfl, ?_⟩)
      refine ⟨htrack.indexes, by simp, hheld.mp rfl, ?_, htrack.advance b⟩
      show t.candidateTrieNode.bind (·.child b) = t.boundaryTrie.walk (text ++ [b])
      rw [Trie.walk_concat, htrack.node]
  | false =>
      rw [if_pos (by simp)]
      exact h.die hstart.padding
        (dead_of_held hstart.no_cr htrack.alive
          (fun hs => absurd (hheld.mpr hs) Bool.false_ne_true) hpad hend)
        hwaiting rfl rfl rfl

/-- A held line advances, whatever its place. -/
theorem Held.advance (h : Held ms boundaries s t line)
    (hmatched : t.matchedCandidateBoundary.isSome = true →
      b ≠ CR ∧ (isBlankByte b = true → t.couldExtendBoundary b = true)) :
    ∃ t' remains, t.advanceBoundaryCandidates ms b = .ok (t', remains) ∧
      Scanned ms boundaries s (settleAdvance ms (t'.appendCandidate b) remains)
        (line ++ [b]) := by
  rcases h.place with ⟨hnode, hclosing, hdashes, hline⟩ | ⟨x, text, hx, rfl, htrack⟩
  · rcases hline with rfl | ⟨x, hx, rfl | rfl⟩
    · exact h.advance_start hstart hnode hclosing hdashes (.inl rfl) b
    · exact h.advance_start hstart hnode hclosing hdashes (.inr ⟨x, hx, rfl⟩) b
    · exact h.advance_first hstart hx hclosing hdashes b
  · have hstem := htrack.matched
    refine h.advance_next hstart hx htrack (fun hs hb => ?_) fun hs => (hmatched (hstem.mpr hs)).1
    exact (htrack.couldExtend hb).mp ((hmatched (hstem.mpr hs)).2 hb)

end

/-- A matched line is a stem. -/
theorem Held.stem (h : Held ms boundaries s t line)
    (hmatched : t.matchedCandidateBoundary.isSome = true) :
    ∃ x text, Lead x ∧ line = x :: HYPHEN :: text ∧ Track boundaries text t ∧
      Stem boundaries text := by
  rcases h.place with ⟨hnode, hclosing, hdashes, -⟩ | ⟨x, text, hx, hline, htrack⟩
  · simp [matchedCandidateBoundary, hnode, hdashes] at hmatched
  · exact ⟨x, text, hx, hline, htrack, htrack.matched.mp hmatched⟩

/-- A matched line with padding, or a carriage return, after it. -/
theorem Held.pad (h : Held ms boundaries s t line)
    (hmatched : t.matchedCandidateBoundary.isSome = true) {b : UInt8}
    (ht' : Waiting ms boundaries s t') (hcandidate : t'.candidate = t.candidate)
    (hboundary : t'.candidateBoundary = t.matchedCandidateBoundary)
    (hb : isBlankByte b = true ∧ t.couldExtendBoundary b = false ∧
        t'.candidatePadding = t.candidatePadding.push b ∧ t'.candidateCarriageReturn = false ∨
      b = CR ∧ t'.candidatePadding = t.candidatePadding ∧ t'.candidateCarriageReturn = true) :
    PaddedState ms boundaries s t' (line ++ [b]) := by
  obtain ⟨x, text, hx, rfl, htrack, hstem⟩ := h.stem hmatched
  obtain ⟨found, hfound⟩ := Option.isSome_iff_exists.mp hmatched
  have hboundary : ∃ found, t'.candidateBoundary = some found ∧ found.boundary ∈ boundaries :=
    ⟨found, hboundary.trans hfound, htrack.matched_mem hfound⟩
  have hstart : t'.candidate = x :: HYPHEN :: text := hcandidate.trans h.candidate
  rcases hb with ⟨hblank, hextend, hpadding, hcr⟩ | ⟨rfl, hpadding, hcr⟩
  · refine ⟨ht', hboundary, x, text, [b], ?_, nofun, hstart, ?_⟩
    · rw [hcr, if_neg Bool.false_ne_true]
      refine ⟨hx, ⟨hstem, by simpa using hblank, ?_⟩, unblank_nil, by simp⟩
      rintro c ⟨⟩ b' hb' hprefix
      have hext := (htrack.couldExtend hblank).mpr ⟨b', hb', hprefix⟩
      rw [hextend] at hext
      cases hext
    · rw [hpadding, h.padding]
      rfl
  · refine ⟨ht', hboundary, x, text, [], ?_, fun _ => hcr, hstart, ?_⟩
    · rw [hcr, if_pos rfl]
      exact ⟨hx, ⟨hstem, nofun, nofun⟩, unblank_cr [], by simp⟩
    · rw [hpadding, h.padding]
      rfl

theorem isBlankByte_iff (b : UInt8) : (b = SP || b = TAB : Bool) = isBlankByte b := rfl

section

variable (hstart : LineStart ms boundaries s)
include hstart

/-- **A byte after a line that is held back.** -/
theorem Held.turn (h : Held ms boundaries s t line) (b : UInt8) :
    ∃ t', t.candidateTurn ms b = .ok (t', true) ∧ Scanned ms boundaries s t' (line ++ [b]) := by
  rw [candidateTurn, h.boundary]
  simp only [Option.isSome_none, Bool.false_eq_true, if_false, isBlankByte_iff]
  split
  · next hfirst =>
    simp only [Bool.and_eq_true, decide_eq_true_eq] at hfirst
    obtain ⟨⟨hnil, hhyphen⟩, hcr⟩ := hfirst
    obtain rfl : line = [] := h.candidate.symm.trans (List.length_eq_zero_iff.mp hnil)
    have hlead : ∀ x tail rest, Lead x → ([] ++ [b]) ++ rest ≠ x :: tail :=
      fun x tail rest hx heq =>
        hx.elim ((List.cons.inj heq).1 ▸ hhyphen) ((List.cons.inj heq).1 ▸ hcr)
    exact ⟨_, rfl, h.die hstart.padding (dead_of_start fun x hx rest =>
      ⟨hlead x [] rest hx, fun text => hlead x _ rest hx⟩) h.toWaiting rfl rfl rfl⟩
  · split
    · next hpad =>
      simp only [Bool.and_eq_true, Bool.not_eq_true'] at hpad
      obtain ⟨⟨hblank, hmatched⟩, hextend⟩ := hpad
      refine ⟨_, rfl, .inr (.inl (h.pad hmatched ?_ rfl rfl
        (.inl ⟨hblank, hextend, rfl, h.carriageReturn⟩)))⟩
      exact ⟨⟨h.base, h.active⟩, h.streaming, h.noReturn, h.pending, h.out⟩
    · next hpad =>
      split
      · next hcr =>
        simp only [Bool.and_eq_true, decide_eq_true_eq] at hcr
        refine ⟨_, rfl, .inr (.inl (h.pad hcr.2 ?_ rfl rfl (.inr ⟨hcr.1, rfl, rfl⟩)))⟩
        exact ⟨⟨h.base, h.active⟩, h.streaming, h.noReturn, h.pending, h.out⟩
      · next hcr =>
        have hmatched : t.matchedCandidateBoundary.isSome = true →
            b ≠ CR ∧ (isBlankByte b = true → t.couldExtendBoundary b = true) := by
          intro hsome
          refine ⟨fun hb => hcr (by simp [hb, hsome]), fun hblank => ?_⟩
          by_contra hext
          exact hpad (by simp [hblank, hsome, hext])
        obtain ⟨t', remains, hadvance, hscanned⟩ := h.advance hstart hmatched
        refine ⟨settleAdvance ms (t'.appendCandidate b) remains, ?_, hscanned⟩
        rw [hadvance, ok_bind, settleAdvance]
        dsimp only
        split <;> rfl

/-- **A byte after a delimiter with padding.** -/
theorem PaddedState.turn (h : PaddedState ms boundaries s t line) (hb : b ≠ LF) :
    ∃ t' used, t.candidateTurn ms b = .ok (t', used) ∧
      Scanned ms boundaries s (if used then t' else t'.streamByte ms b) (line ++ [b]) := by
  obtain ⟨x, u, pad, hline, hpad, hcandidate, hpadding⟩ := h.parts
  -- the line is ordinary from here on
  have hordinary : (t.candidateCarriageReturn = false → isBlankByte b = false ∧ b ≠ CR) →
      Scanned ms boundaries s ((t.startOrdinaryBodyLine ms).streamByte ms b) (line ++ [b]) := by
    intro hother
    have hdead := dead_of_padded hstart.no_cr (c := b) hline (by
      cases hcr : t.candidateCarriageReturn with
      | true => exact .inr rfl
      | false => exact .inl ⟨rfl, hother hcr⟩) fun hnil => by rw [hpad hnil, if_pos rfl]
    refine .inr (.inr ⟨_, _, _, (ordinary_of_waiting h.toWaiting hpadding ?_).streamByte hb,
      hdead.2, hdead.1⟩)
    rw [hcandidate, hpadding]
  have hboundary : t.candidateBoundary.isSome = true := by
    obtain ⟨found, hfound, -⟩ := h.boundary
    rw [hfound]
    rfl
  rw [candidateTurn, if_pos hboundary]
  split
  · next hcr => exact ⟨_, false, rfl, hordinary fun hfalse => by rw [hcr] at hfalse; cases hfalse⟩
  · next hcr =>
    have hfalse : t.candidateCarriageReturn = false := by simpa using hcr
    rw [hfalse, if_neg Bool.false_ne_true] at hline
    have hne : pad ≠ [] := fun hnil => by rw [hpad hnil] at hfalse; cases hfalse
    split
    · next hblank =>
      refine ⟨_, true, rfl, .inr (.inl ⟨⟨⟨h.base, h.active⟩, h.streaming, h.noReturn, h.pending,
        h.out⟩, h.boundary, x, u, pad ++ [b], ?_, by simp, hcandidate, ?_⟩)⟩
      · show PaddedLine boundaries (line ++ [b]) x u (pad ++ [b])
          (if t.candidateCarriageReturn then [CR] else [])
        rw [hfalse, if_neg Bool.false_ne_true]
        refine ⟨hline.lead, ⟨hline.padded.stem, ?_, ?_⟩, unblank_nil, by rw [hline.eq]; simp⟩
        · intro c hc
          rcases List.mem_append.mp hc with hc | hc
          · exact hline.padded.blank c hc
          · rw [List.mem_singleton.mp hc]
            exact hblank
        · rw [List.head?_append_of_ne_nil _ hne]
          exact hline.padded.free
      · rw [List.foldl_concat, ← hpadding]
        rfl
    · next hblank =>
      split
      · next hbcr =>
        refine ⟨_, true, rfl, .inr (.inl ⟨⟨⟨h.base, h.active⟩, h.streaming, h.noReturn, h.pending,
          h.out⟩, h.boundary, x, u, pad, ?_, fun _ => rfl, hcandidate, hpadding⟩)⟩
        rw [if_pos rfl, hbcr]
        exact ⟨hline.lead, hline.padded, unblank_cr [], by rw [hline.eq]; simp⟩
      · next hbcr =>
        exact ⟨_, false, rfl, hordinary fun _ => ⟨by simpa [isBlankByte] using hblank, hbcr⟩⟩

/-- A byte of a line of which nothing is written. -/
theorem Waiting.step (h : Waiting ms boundaries s t) (hb : b ≠ LF) :
    t.step ms b = t.candidateTurn ms b >>= fun (t, used) =>
      .ok (if used then t else t.streamByte ms b) := by
  have hbody := hstart.body
  rw [← h.base] at hbody
  rw [BoundedMimeSplitter.step, if_neg hbody, bodyByte, h.streaming, if_neg Bool.false_ne_true,
    candidateByte, if_neg hb]

/-- A byte of a line that is written. -/
theorem Ordinary.step {pad : List UInt8} (h : Ordinary ms boundaries s t before pad after)
    (b : UInt8) : t.step ms b = .ok (t.streamByte ms b) := by
  have hbody := hstart.body
  rw [← h.base] at hbody
  exact step_streaming hbody h.streaming b

/-- **One byte of a line.** -/
theorem Scanned.step (h : Scanned ms boundaries s t line) (hb : b ≠ LF) :
    ∃ t', t.step ms b = .ok t' ∧ Scanned ms boundaries s t' (line ++ [b]) := by
  rcases h with h | h | ⟨before, pad, after, h, hpad, hdead⟩
  · obtain ⟨t', hturn, hscanned⟩ := h.turn hstart b
    rw [h.toWaiting.step hstart hb, hturn]
    exact ⟨t', rfl, hscanned⟩
  · obtain ⟨t', used, hturn, hscanned⟩ := h.turn hstart hb
    rw [h.toWaiting.step hstart hb, hturn]
    exact ⟨_, rfl, hscanned⟩
  · exact ⟨_, h.step hstart b, .inr (.inr ⟨before, pad, after ++ [b], h.streamByte hb,
      hpad.append hdead b, hdead.append [b]⟩)⟩

/-- **The bytes of a line**, up to its line feed. -/
theorem scan (hline : ∀ b ∈ line, b ≠ LF) :
    ∃ t, line.foldlM (step ms) s = .ok t ∧ Scanned ms boundaries s t line := by
  induction line using List.reverseRecOn with
  | nil => exact ⟨s, rfl, .inl hstart.held⟩
  | append_singleton line b ih =>
      obtain ⟨t, ht, hscanned⟩ := ih fun c hc => hline c (List.mem_append_left _ hc)
      obtain ⟨t', ht', hscanned'⟩ := hscanned.step hstart (hline b (by simp))
      refine ⟨t', ?_, hscanned'⟩
      rw [List.foldlM_append, ht, ok_bind, List.foldlM_cons, ht']
      rfl

end

end BoundedMimeSplitter

end MailPortal.Mime
