import MailPortal.Mime.BodyBytes

/-!
# The Bytes of a Body

What the splitter hands on for the body of a part: the bytes of its lines, without the line
break in front of the delimiter that ends it.

Main result: `body_bytes_exact`. The bytes are right exactly when (`BodyIntact`)

* no padded line has a space at a place where an earlier padded line had a tab: the packed
  padding never clears a bit; and
* the line in front of the delimiter, if it ends in CRLF, is not held back when its carriage
  return arrives: otherwise that is written with the line, and only the line feed is dropped.
-/

namespace MailPortal.Mime

open Lines Failure

variable {lines : List Line}
variable {xs ys : List (List UInt8)}

/-- The body bytes of a chunk, if it is one of the node. -/
def SplitterChunk.bodyOf {Node Data : Type} [DecidableEq Node] (node : Node) :
    SplitterChunk Node Data → List UInt8
  | .body other _ value => if other = node then value else []
  | .node _ => []

/-- The bytes of the body chunks of a node. -/
def bodyBytes {Node Data : Type} [DecidableEq Node] (node : Node)
    (chunks : List (SplitterChunk Node Data)) : List UInt8 := chunks.flatMap (·.bodyOf node)

/-- What ends a body: a delimiter line, or the end of the input after a last line. -/
inductive BodyEnd
  | delimiter (line : Line)
  | input (last : List UInt8)

namespace BodyEnd

def bytes : BodyEnd → List UInt8
  | .delimiter line => line.bytes
  | .input last => last

/-- The input ends here. -/
def final : BodyEnd → Bool
  | .delimiter line => line.ending = .none
  | .input _ => true

/-- The line that still belongs to the body. -/
def rest : BodyEnd → List (List UInt8)
  | .delimiter _ => []
  | .input last => [last]

/-- The scanner takes the delimiter line for a delimiter, and the last line for none. -/
def Valid (boundaries : List (List UInt8)) : BodyEnd → Prop
  | .delimiter line => (∀ b ∈ BoundedMimeSplitter.content line, b ≠ LF) ∧
      Found boundaries (BoundedMimeSplitter.content line)
  | .input last => (∀ b ∈ last, b ≠ LF) ∧ ¬ Found boundaries last

/-- **The bytes of a body**: those of its lines, without the last line break when a delimiter
follows. -/
def text (lines : List Line) : BodyEnd → List UInt8
  | .delimiter _ => lines.dropLast.flatMap Line.bytes ++ lines.getLast?.elim [] Line.body
  | .input last => lines.flatMap Line.bytes ++ last

end BodyEnd

/-- Joined lines of equal lengths are equal. -/
theorem flatMap_lf_inj (h : xs.map List.length = ys.map List.length) :
    xs.flatMap (· ++ [LF]) = ys.flatMap (· ++ [LF]) ↔ xs = ys := by
  refine ⟨fun heq => ?_, fun heq => heq ▸ rfl⟩
  induction xs generalizing ys with
  | nil => exact (List.map_eq_nil_iff.mp h.symm).symm
  | cons x xs ih =>
      cases ys with
      | nil => cases h
      | cons y ys =>
          obtain ⟨hlength, hlengths⟩ := List.cons.inj h
          rw [List.flatMap_cons, List.flatMap_cons] at heq
          obtain ⟨hline, hrest⟩ := List.append_inj heq (by simp [hlength])
          rw [List.append_cancel_right hline, ih hlengths hrest]

/-- Joined lines of equal lengths have equal lengths. -/
theorem flatMap_lf_length (h : xs.map List.length = ys.map List.length) :
    (xs.flatMap (· ++ [LF])).length = (ys.flatMap (· ++ [LF])).length := by
  have hmap : ∀ zs : List (List UInt8),
      zs.map (fun z => (z ++ [LF]).length) = (zs.map List.length).map (· + 1) := by simp
  rw [List.length_flatMap, List.length_flatMap, hmap, hmap, h]

namespace BoundedMimeSplitter

variable {M Node Data : Type} [DecidableEq Node] {ms : Mailsplit M Node Data}
  {boundaries : List (List UInt8)} {s t : BoundedMimeSplitter M Node Data}

/-- The state after a body: its bytes arrive in chunks, and the stream is flushed when the
input ends there. -/
def readBody (ms : Mailsplit M Node Data) (s : BoundedMimeSplitter M Node Data)
    (chunks : List (List UInt8)) (e : BodyEnd) :
    Except MimeError (BoundedMimeSplitter M Node Data) := do
  let t ← chunks.foldlM (transform ms) s
  if e.final then t.flushStream ms else .ok t

/-- What was handed on for a node since a state. -/
def Emitted (s s' : BoundedMimeSplitter M Node Data) (node : Node) (text : List UInt8) : Prop :=
  ∃ chunks, s'.out.pushed = s.out.pushed ++ chunks ∧ bodyBytes node chunks = text

/-- **The bodies that come out right**, given the bits of the packed padding at the start. -/
structure BodyIntact (boundaries : List (List UInt8)) (bits : ℕ → Bool) (lines : List Line)
    (e : BodyEnd) : Prop where
  padding : PaddingIntact boundaries bits (lines.map content ++ e.rest)
  lineBreak : ∀ line, e = .delimiter line → ∀ last ∈ lines.getLast?, last.ending = .crlf →
    ¬ HeldLine boundaries last.body

/-! ### The lines of a body -/

/-- What the lines of a body have written, with the line break that is kept back. -/
structure LinesDone (ms : Mailsplit M Node Data) (boundaries : List (List UInt8))
    (s t : BoundedMimeSplitter M Node Data) (lines : List Line) (value : List UInt8)
    (images : List (List UInt8)) : Prop where
  start : LineStart ms boundaries t
  base : t.base = s.base
  padding : Images boundaries s.candidatePadding (lines.map content) images t.candidatePadding
  out : t.out = s.out.append (ms.multipart s.base) (ms.node s.base) value
  value : value ++ t.pendingLineBreak = s.pendingLineBreak ++ images.flatMap (· ++ [LF])
  none : lines = [] → t.pendingLineBreak = s.pendingLineBreak
  kept : ∀ last ∈ lines.getLast?, ReturnKept boundaries last → t.pendingLineBreak = [CR, LF]
  notKept : ∀ last ∈ lines.getLast?, ¬ ReturnKept boundaries last → t.pendingLineBreak = [LF]

/-- **The lines of a body**, none of them a delimiter. -/
theorem bodyLines (hstart : LineStart ms boundaries s)
    (hlines : ∀ line ∈ lines, BodyLine boundaries line) :
    ∃ t value images, (lines.flatMap Line.bytes).foldlM (step ms) s = .ok t ∧
      LinesDone ms boundaries s t lines value images := by
  induction lines using List.reverseRecOn with
  | nil =>
      exact ⟨s, [], [], rfl, hstart, rfl, .nil _, rfl, by simp, fun _ => rfl, nofun, nofun⟩
  | append_singleton lines line ih =>
      obtain ⟨t, value, images, ht, hdone⟩ := ih fun l hl => hlines l (List.mem_append_left _ hl)
      obtain ⟨t', ht', hline, hkept, hnotKept⟩ := bodyLine hdone.start (hlines line (by simp))
      obtain ⟨before, pad, after, value', hpad, hpadding, hout, hvalue⟩ := hline.written
      refine ⟨t', value ++ (t.pendingLineBreak ++ value'),
        images ++ [before ++ (t.candidatePadding.pushAll pad).bytes ++ after], ?_, hline.start,
        hline.base.trans hdone.base, ?_, ?_, ?_, by simp, by simpa using hkept,
        by simpa using hnotKept⟩
      · rw [List.flatMap_append, List.foldlM_append, ht, ok_bind, List.flatMap_singleton, ht']
      · rw [List.map_append, List.map_singleton, hpadding]
        exact hdone.padding.concat hpad
      · rw [hout, hdone.base, hdone.out, BodyOutput.append_append]
      · calc value ++ (t.pendingLineBreak ++ value') ++ t'.pendingLineBreak
            = (value ++ t.pendingLineBreak) ++ (value' ++ t'.pendingLineBreak) := by simp
          _ = _ := by
              rw [hdone.value, hvalue]
              simp

/-! ### The delimiter -/

/-- What mailsplit reports: only chunks about nodes are added to the output. -/
structure Reported (s s' : BoundedMimeSplitter M Node Data) : Prop where
  pushed : ∃ datas : List Data, s'.out.pushed = s.out.pushed ++ datas.map .node
  output : s'.out.output = s.out.output
  lineBreak : s'.pendingLineBreak = s.pendingLineBreak

omit [DecidableEq Node] in
theorem Reported.refl (s : BoundedMimeSplitter M Node Data) : Reported s s :=
  ⟨⟨[], by simp⟩, rfl, rfl⟩

omit [DecidableEq Node] in
theorem Reported.trans {s₁ s₂ s₃ : BoundedMimeSplitter M Node Data} (h : Reported s₁ s₂)
    (h' : Reported s₂ s₃) : Reported s₁ s₃ := by
  obtain ⟨datas, hdatas⟩ := h.pushed
  obtain ⟨datas', hdatas'⟩ := h'.pushed
  exact ⟨⟨datas ++ datas', by simp [hdatas', hdatas]⟩, h'.output.trans h.output,
    h'.lineBreak.trans h.lineBreak⟩

variable {s s' : BoundedMimeSplitter M Node Data}

omit [DecidableEq Node] in
theorem processLine_reported {line : List UInt8} {final : Bool}
    (h : s.processLine ms line final = .ok s') : Reported s s' := by
  obtain ⟨⟨base, data⟩, -, hs'⟩ := bind_eq_ok.mp h
  cases data with
  | none =>
      cases hs'
      exact ⟨⟨[], (List.append_nil _).symm⟩, rfl, rfl⟩
  | some data =>
      cases hs'
      exact ⟨⟨[data], rfl⟩, rfl, rfl⟩

theorem boundaries_reported (h : s.boundaries ms = .ok s') : Reported s s' := by
  rw [BoundedMimeSplitter.boundaries] at h
  split at h
  · cases h
    exact Reported.refl s
  · obtain ⟨result, -, hs'⟩ := bind_eq_ok.mp h
    cases hs'
    exact ⟨⟨[], (List.append_nil _).symm⟩, rfl, rfl⟩

/-- The lines that a boundary makes mailsplit read add no body bytes. -/
theorem processBoundary_reported {found : BoundaryMatch} {final : Bool}
    (h : s.processBoundary ms found final = .ok s') : Reported s s' := by
  obtain ⟨s₁, hs₁, h⟩ := bind_eq_ok.mp h
  obtain ⟨s₂, hs₂, h⟩ := bind_eq_ok.mp h
  have hclosed : ∀ (closed : List (List UInt8)) (s s' : BoundedMimeSplitter M Node Data),
      closed.foldlM (fun s boundary =>
        s.processLine ms (normalizedBoundary boundary true) false) s = .ok s' →
      Reported s s' := by
    intro closed
    induction closed with
    | nil =>
        intro s s' hs'
        cases hs'
        exact Reported.refl s
    | cons boundary closed ih =>
        intro s s' hs'
        rw [List.foldlM_cons] at hs'
        obtain ⟨s₁, hs₁, hs'⟩ := bind_eq_ok.mp hs'
        exact (processLine_reported hs₁).trans (ih s₁ s' hs')
  exact (boundaries_reported hs₁).trans ((hclosed _ s₁ s₂ hs₂).trans (processLine_reported h))

/-- A delimiter line has been found: what it closes, and what mailsplit is told. -/
structure AtDelimiter (ms : Mailsplit M Node Data) (s t : BoundedMimeSplitter M Node Data) :
    Prop where
  base : t.base = s.base
  out : t.out = s.out
  streaming : t.streamingBodyLine = false
  noReturn : t.streamingCarriageReturn = false
  held : 0 < t.candidate.length ∨ t.candidateBoundary.isSome = true
  found : ∃ found, t.lineBoundary = some found

/-- The bytes of a delimiter line. -/
theorem scan_delimiter (hstart : LineStart ms boundaries s) {line : List UInt8}
    (hline : ∀ b ∈ line, b ≠ LF) (hfound : Found boundaries line) :
    ∃ t, line.foldlM (step ms) s = .ok t ∧ AtDelimiter ms s t := by
  obtain ⟨t, ht, hscanned⟩ := scan hstart hline
  refine ⟨t, ht, ?_⟩
  rcases hscanned with hheld | hpadded | ⟨before, pad, after, -, -, hdead⟩
  · have hmatched := (hheld.found_iff hstart.no_cr).mpr hfound
    obtain ⟨x, text, -, hcons, -, -⟩ := hheld.stem hmatched
    obtain ⟨found, hsome⟩ := Option.isSome_iff_exists.mp hmatched
    refine ⟨hheld.base, hheld.out, hheld.streaming, hheld.noReturn, .inl ?_, found, ?_⟩
    · rw [hheld.candidate, hcons]
      exact Nat.succ_pos _
    · rw [lineBoundary, hheld.boundary]
      exact hsome
  · obtain ⟨found, hsome, -⟩ := hpadded.boundary
    refine ⟨hpadded.base, hpadded.out, hpadded.streaming, hpadded.noReturn, .inr ?_, found, ?_⟩
    · rw [hsome]
      rfl
    · rw [lineBoundary, hsome]
      rfl
  · rw [← List.append_nil line] at hfound
    exact absurd hfound (hdead.found [])

/-- A delimiter hands on the body in front of it, without the line break that is kept back. -/
theorem closeBody_reported (hbase : t.base = s.base) (hout : t.out = s.out)
    {found : BoundaryMatch} {final : Bool} {t' : BoundedMimeSplitter M Node Data}
    (ht' : (t.closeBody ms).processBoundary ms found final = .ok t') :
    (∃ datas : List Data,
      t'.out.pushed = (s.out.flush (ms.multipart s.base)).pushed ++ datas.map .node) ∧
      t'.out.output = (s.out.flush (ms.multipart s.base)).output ∧ t'.pendingLineBreak = [] := by
  have hreported := processBoundary_reported ht'
  have hclose : (t.closeBody ms).out = s.out.flush (ms.multipart s.base) := by
    rw [← hout, ← hbase]
    rfl
  exact ⟨hclose ▸ hreported.pushed, hclose ▸ hreported.output, hreported.lineBreak⟩

section

variable (hstart : LineStart ms boundaries s) (h : AtDelimiter ms s t)
include hstart h

/-- The line feed of a delimiter line. -/
theorem AtDelimiter.lineFeed {t' : BoundedMimeSplitter M Node Data} (ht' : t.step ms LF = .ok t') :
    ∃ datas : List Data,
      t'.out.pushed = (s.out.flush (ms.multipart s.base)).pushed ++ datas.map .node := by
  have hbody := hstart.body
  rw [← h.base] at hbody
  obtain ⟨found, hfound⟩ := h.found
  rw [step, if_neg hbody, bodyByte, h.streaming, if_neg Bool.false_ne_true, candidateByte,
    if_pos rfl] at ht'
  -- the carriage return that may be taken off the candidate changes nothing here
  obtain ⟨t₁, hbase, hout, hturn⟩ : ∃ t₁ : BoundedMimeSplitter M Node Data,
      t₁.base = s.base ∧ t₁.out = s.out ∧
        t.lineFeedTurn ms = (t₁.closeBody ms).processBoundary ms found false := by
    let ending := if t.candidateCarriageReturn || t.candidate.getLast? = some CR then [CR, LF]
      else [LF]
    let t₁ := if t.candidateBoundary.isNone && ending.length = 2 && 0 < t.candidate.length then
      { t with candidate := t.candidate.dropLast } else t
    have hkeeps : t₁.base = s.base ∧ t₁.out = s.out ∧ t₁.lineBoundary = some found := by
      simp only [t₁]
      split
      · exact ⟨h.base, h.out, hfound⟩
      · exact ⟨h.base, h.out, hfound⟩
    refine ⟨t₁, hkeeps.1, hkeeps.2.1, ?_⟩
    show t₁.finishCandidateLine ms ending = _
    rw [finishCandidateLine, hkeeps.2.2]
  rw [hturn] at ht'
  exact (closeBody_reported hbase hout ht').1

/-- The end of the input after a delimiter line. -/
theorem AtDelimiter.flushStream (hflushed : (s.out.flush (ms.multipart s.base)).output = [])
    {s' : BoundedMimeSplitter M Node Data} (hs' : t.flushStream ms = .ok s') :
    ∃ datas : List Data,
      s'.out.pushed = (s.out.flush (ms.multipart s.base)).pushed ++ datas.map .node := by
  have hbody := hstart.body
  rw [← h.base] at hbody
  obtain ⟨found, hfound⟩ := h.found
  have hheld : (!t.streamingBodyLine && (0 < t.candidate.length || t.candidateBoundary.isSome)) =
      true := by
    rw [h.streaming]
    simpa using h.held
  rw [BoundedMimeSplitter.flushStream, if_neg hbody] at hs'
  simp only [h.noReturn, Bool.false_eq_true, if_false, hheld, if_true, hfound] at hs'
  obtain ⟨t', ht', hs'⟩ := bind_eq_ok.mp hs'
  obtain ⟨hpushed, houtput, hpending⟩ := closeBody_reported h.base h.out ht'
  rw [hpending] at hs'
  cases hs'
  have hflush : (flushOutput ms { t'.appendBody ms [] with pendingLineBreak := [] }).out = t'.out :=
    BodyOutput.flush_of_output_nil (houtput.trans hflushed)
  rw [hflush]
  exact hpushed

end

/-! ### The end of the input -/

/-- The flush of an ordinary line, all of which is written. -/
theorem Ordinary.flushed {before pad after : List UInt8}
    (h : Ordinary ms boundaries s t before pad after) (hcr : t.streamingCarriageReturn = false) :
    (flushOutput ms { t.appendBody ms t.pendingLineBreak with pendingLineBreak := [] }).out =
      (s.out.append (ms.multipart s.base) (ms.node s.base) (s.pendingLineBreak ++
        (before ++ (s.candidatePadding.pushAll pad).bytes ++ after))).flush
          (ms.multipart s.base) := by
  obtain ⟨value, hout, hvalue⟩ := h.written
  rw [hcr, if_neg Bool.false_ne_true, List.append_nil] at hvalue
  rw [PackedPadding.pushAll, ← hvalue, ← hout, ← h.base, h.pending]
  rfl

/-- The flush of a body line that is no delimiter, with nothing held back. -/
theorem flushStream_written (hbody : ms.state t.base ≠ mailsplitHeadState)
    (hcr : t.streamingCarriageReturn = false)
    (hwritten : t.streamingBodyLine = true ∨ t.candidate = [] ∧ t.candidateBoundary = none) :
    t.flushStream ms =
      .ok (flushOutput ms { t.appendBody ms t.pendingLineBreak with pendingLineBreak := [] }) := by
  have hnone : (!t.streamingBodyLine && (0 < t.candidate.length || t.candidateBoundary.isSome)) =
      false := by
    rcases hwritten with hstreaming | ⟨hcandidate, hboundary⟩
    · simp [hstreaming]
    · simp [hcandidate, hboundary]
  rw [flushStream, if_neg hbody]
  simp only [hcr, hnone, Bool.false_eq_true, if_false]
  rfl

/-- The end of the input after a last line that is no delimiter. -/
theorem lastLine (hstart : LineStart ms boundaries s) {last : List UInt8}
    (hlast : ∀ b ∈ last, b ≠ LF) (hunfound : ¬ Found boundaries last) :
    ∃ s' before pad after, (last.foldlM (step ms) s >>= flushStream ms) = .ok s' ∧
      LinePad boundaries last before pad after ∧
      s'.out = (s.out.append (ms.multipart s.base) (ms.node s.base) (s.pendingLineBreak ++
        (before ++ (s.candidatePadding.pushAll pad).bytes ++ after))).flush
          (ms.multipart s.base) := by
  obtain ⟨t, ht, hscanned⟩ := scan hstart hlast
  rw [ht, ok_bind]
  have hempty : s.candidatePadding.bytes = [] := by
    simp [PackedPadding.bytes, hstart.padding]
  rcases hscanned with hheld | hpadded | ⟨before, pad, after, hordinary, hpad, -⟩
  · have hbody := hstart.body
    rw [← hheld.base] at hbody
    by_cases hnil : last = []
    · subst hnil
      refine ⟨_, [], [], [], flushStream_written hbody hheld.noReturn
        (.inr ⟨hheld.candidate, hheld.boundary⟩), hheld.linePad hstart.no_cr, ?_⟩
      rw [PackedPadding.pushAll, List.foldl_nil, hempty, ← hheld.base, ← hheld.out, ← hheld.pending]
      simp [flushOutput, appendBody]
    · have hunmatched : t.lineBoundary = none := by
        rw [lineBoundary, hheld.boundary]
        show t.matchedCandidateBoundary = none
        rw [← Option.not_isSome_iff_eq_none, hheld.found_iff hstart.no_cr]
        exact hunfound
      have hpos : (!t.streamingBodyLine &&
          (0 < t.candidate.length || t.candidateBoundary.isSome)) = true := by
        simp [hheld.streaming, hheld.candidate, List.length_pos_iff.mpr hnil]
      have hordinary : Ordinary ms boundaries s (t.startOrdinaryBodyLine ms) last [] [] := by
        refine ordinary_of_waiting hheld.toWaiting hheld.padding ?_
        rw [hheld.candidate, hheld.padding, hheld.carriageReturn]
        rfl
      have hreturn : (t.startOrdinaryBodyLine ms).streamingCarriageReturn = false := by
        rw [startOrdinaryBodyLine_return]
        exact hheld.noReturn
      refine ⟨_, last, [], [], ?_, hheld.linePad hstart.no_cr, hordinary.flushed hreturn⟩
      rw [flushStream, if_neg hbody]
      simp only [hheld.noReturn, Bool.false_eq_true, if_false, hpos, if_true, hunmatched]
      rfl
  · exact absurd hpadded.found hunfound
  · have hbody := hstart.body
    rw [← hordinary.base] at hbody
    cases hcr : t.streamingCarriageReturn with
    | true =>
        let t₁ := (t.setReturn false).appendBody ms [CR]
        have hsame : t.flushStream ms = t₁.flushStream ms := by
          have hbody₁ : ms.state t₁.base ≠ mailsplitHeadState := hbody
          rw [flushStream, flushStream, if_neg hbody, if_neg hbody₁, if_pos hcr,
            if_neg (show ¬ t₁.streamingCarriageReturn = true from Bool.false_ne_true)]
          rfl
        refine ⟨_, before, pad, after, ?_, hpad, (hordinary.release hcr).flushed rfl⟩
        rw [hsame]
        exact flushStream_written hbody rfl (.inl hordinary.streaming)
    | false =>
        exact ⟨_, before, pad, after, flushStream_written hbody hcr (.inl hordinary.streaming),
          hpad, hordinary.flushed hcr⟩

/-! ### The whole body -/

/-- The state at the start of a body: nothing is kept back from before. -/
structure BodyStart (ms : Mailsplit M Node Data) (boundaries : List (List UInt8))
    (s : BoundedMimeSplitter M Node Data) : Prop extends LineStart ms boundaries s where
  lineBreak : s.pendingLineBreak = []
  output : s.out.output = []

theorem bodyBytes_append (node : Node) (a b : List (SplitterChunk Node Data)) :
    bodyBytes node (a ++ b) = bodyBytes node a ++ bodyBytes node b := List.flatMap_append

theorem bodyBytes_nodes (node : Node) (datas : List Data) :
    bodyBytes node (datas.map .node) = [] := by
  induction datas with
  | nil => rfl
  | cons data datas ih => exact ih

theorem bodyBytes_values (node : Node) (multipart : Bool) (values : List (List UInt8)) :
    bodyBytes node (values.map (SplitterChunk.body node multipart :
      List UInt8 → SplitterChunk Node Data)) =
      values.flatten := by
  induction values with
  | nil => rfl
  | cons value values ih =>
      rw [List.map_cons, bodyBytes, List.flatMap_cons, SplitterChunk.bodyOf, if_pos rfl,
        List.flatten_cons, ← ih, bodyBytes]

/-- What is handed on, when all that is appended for the node is flushed. -/
theorem emitted_iff (hempty : s.out.output = []) {node : Node} {multipart : Node → Bool}
    {value : List UInt8} {datas : List Data} {s' : BoundedMimeSplitter M Node Data}
    (hpushed : s'.out.pushed =
      ((s.out.append multipart node value).flush multipart).pushed ++ datas.map .node)
    (text : List UInt8) : Emitted s s' node text ↔ value = text := by
  obtain ⟨hwrote, hflushed⟩ := ((BodyOutput.Wrote.start multipart node hempty).append value).flush
  obtain ⟨values, hvalues, htext⟩ := hwrote.written
  rw [hflushed, List.append_nil, List.nil_append] at htext
  have hbytes : bodyBytes node
      (values.map (SplitterChunk.body node (multipart node)) ++ datas.map .node) = value := by
    rw [bodyBytes_append, bodyBytes_values, bodyBytes_nodes, List.append_nil, htext]
  rw [hvalues, List.append_assoc] at hpushed
  constructor
  · rintro ⟨chunks, hchunks, hemitted⟩
    rw [hpushed, List.append_cancel_left_eq] at hchunks
    rw [← hemitted, ← hchunks, hbytes]
  · intro heq
    exact ⟨_, hpushed, hbytes.trans heq⟩

theorem flatMap_bytes_eq (h : ∀ line ∈ lines, BodyLine boundaries line) :
    lines.flatMap Line.bytes = (lines.map content).flatMap (· ++ [LF]) := by
  induction lines with
  | nil => rfl
  | cons line lines ih =>
      rw [List.flatMap_cons, List.map_cons, List.flatMap_cons,
        bytes_eq_content (h line List.mem_cons_self).ending,
        ih fun l hl => h l (List.mem_cons_of_mem line hl)]

section

variable {value : List UInt8} {images : List (List UInt8)} (hstart : BodyStart ms boundaries s)
  (h : LinesDone ms boundaries s t lines value images)
  (hlines : ∀ line ∈ lines, BodyLine boundaries line)
include hstart h hlines

/-- The lines in front of a delimiter come out right when their padding does, and the line
break in front of the delimiter is kept back whole. -/
theorem LinesDone.delimiter (line : Line) :
    value = (BodyEnd.delimiter line).text lines ↔
      BodyIntact boundaries s.candidatePadding.bits lines (.delimiter line) := by
  have hvalue := h.value
  have hlengths := h.padding.lengths hstart.padding
  have hintact := h.padding.eq_iff hstart.padding
  rw [hstart.lineBreak, List.nil_append] at hvalue
  -- when the whole line break is kept back, it is the images that count
  have hwhole : ∀ text, text ++ t.pendingLineBreak = lines.flatMap Line.bytes →
      (value = text ↔ PaddingIntact boundaries s.candidatePadding.bits (lines.map content)) := by
    intro text htext
    rw [← hintact, ← flatMap_lf_inj hlengths, ← hvalue, ← flatMap_bytes_eq hlines, ← htext,
      List.append_cancel_right_eq]
  have hpadding : (BodyIntact boundaries s.candidatePadding.bits lines (.delimiter line)) ↔
      PaddingIntact boundaries s.candidatePadding.bits (lines.map content) ∧
        ∀ last ∈ lines.getLast?, last.ending = .crlf → ¬ HeldLine boundaries last.body := by
    constructor
    · intro hi
      exact ⟨by simpa [BodyEnd.rest] using hi.padding, hi.lineBreak line rfl⟩
    · rintro ⟨hpad, hbreak⟩
      exact ⟨by simpa [BodyEnd.rest] using hpad, fun _ _ => hbreak⟩
  rw [hpadding]
  obtain rfl | ⟨init, last, rfl⟩ := List.eq_nil_or_concat' lines
  · have hnil : t.pendingLineBreak = [] := (h.none rfl).trans hstart.lineBreak
    rw [hwhole _ (by rw [hnil]; rfl)]
    exact ⟨fun hpad => ⟨hpad, by simp⟩, fun hi => hi.1⟩
  · have hlast : last ∈ (init ++ [last]).getLast? := by simp
    have hbody := hlines last (by simp)
    have htext : (BodyEnd.delimiter line).text (init ++ [last]) ++ last.ending.bytes =
        (init ++ [last]).flatMap Line.bytes := by
      simp [BodyEnd.text, Line.bytes]
    have hbreak : (∀ l ∈ (init ++ [last]).getLast?, l.ending = .crlf →
        ¬ HeldLine boundaries l.body) ↔
        (last.ending = .crlf → ¬ HeldLine boundaries last.body) := by
      simp
    rw [hbreak]
    cases hending : last.ending with
    | none => exact absurd hending hbody.ending
    | lf =>
        have hpending := h.notKept last hlast fun hkept =>
          absurd (hending.symm.trans hkept.1) (by decide)
        rw [hending] at htext
        rw [hwhole _ (by rw [hpending]; exact htext)]
        exact ⟨fun hpad => ⟨hpad, by simp⟩, fun hi => hi.1⟩
    | crlf =>
        rw [hending] at htext
        by_cases hheld : HeldLine boundaries last.body
        · have hpending := h.notKept last hlast fun hkept => hkept.2 hheld
          refine ⟨fun heq => ?_, fun hi => absurd hheld (hi.2 rfl)⟩
          -- one byte more than there should be
          have himages := congrArg List.length hvalue
          have hcontents := congrArg List.length (htext.trans (flatMap_bytes_eq hlines))
          rw [flatMap_lf_length hlengths, hpending, heq] at himages
          simp only [List.length_append, List.length_cons, List.length_nil, Ending.bytes]
            at himages hcontents
          omega
        · have hpending := h.kept last hlast ⟨hending, hheld⟩
          rw [hwhole _ (by rw [hpending]; exact htext)]
          exact ⟨fun hpad => ⟨hpad, fun _ => hheld⟩, fun hi => hi.1⟩

/-- The lines in front of the end of the input. -/
theorem LinesDone.input {last before pad after : List UInt8}
    (hpad : LinePad boundaries last before pad after) :
    value ++ (t.pendingLineBreak ++ (before ++ (t.candidatePadding.pushAll pad).bytes ++ after)) =
        (BodyEnd.input last).text lines ↔
      BodyIntact boundaries s.candidatePadding.bits lines (.input last) := by
  have hvalue := h.value
  have hall := h.padding.concat hpad
  have hlengths := hall.lengths hstart.padding
  have hintact := hall.eq_iff hstart.padding
  rw [hstart.lineBreak, List.nil_append] at hvalue
  have hpadding : BodyIntact boundaries s.candidatePadding.bits lines (.input last) ↔
      PaddingIntact boundaries s.candidatePadding.bits (lines.map content ++ [last]) :=
    ⟨fun hi => hi.padding, fun hpad => ⟨hpad, by simp⟩⟩
  have himages : value ++ (t.pendingLineBreak ++
      (before ++ (t.candidatePadding.pushAll pad).bytes ++ after)) ++ [LF] =
      (images ++ [before ++ (t.candidatePadding.pushAll pad).bytes ++ after]).flatMap
        (· ++ [LF]) := by
    rw [List.flatMap_append, ← hvalue]
    simp
  have htext : (BodyEnd.input last).text lines ++ [LF] =
      (lines.map content ++ [last]).flatMap (· ++ [LF]) := by
    rw [List.flatMap_append, ← flatMap_bytes_eq hlines]
    simp [BodyEnd.text]
  rw [hpadding, ← hintact, ← flatMap_lf_inj hlengths, ← himages, ← htext,
    List.append_cancel_right_eq]

end

/-- **The bytes of a body come out right exactly when the body is `BodyIntact`**, in any state
at the start of a body, for any number of lines, however the input is cut. -/
theorem body_bytes_exact (hregular : ms.Regular) (hstart : BodyStart ms boundaries s)
    {lines : List Line} (hlines : ∀ line ∈ lines, BodyLine boundaries line) {e : BodyEnd}
    (he : e.Valid boundaries) {chunks : List (List UInt8)}
    (hchunks : chunks.flatten = lines.flatMap Line.bytes ++ e.bytes)
    {s' : BoundedMimeSplitter M Node Data} (hs' : readBody ms s chunks e = .ok s') :
    Emitted s s' (ms.node s.base) (e.text lines) ↔
      BodyIntact boundaries s.candidatePadding.bits lines e := by
  obtain ⟨t, value, images, ht, hdone⟩ := bodyLines hstart.toLineStart hlines
  rw [readBody, transforms_eq hregular, hchunks, List.foldlM_append, ht, ok_bind] at hs'
  have hflushed : (t.out.flush (ms.multipart t.base)).output = [] := by
    rw [hdone.base, hdone.out]
    exact ((BodyOutput.Wrote.start _ _ hstart.output).append value).flush.2
  cases e with
  | delimiter line =>
      obtain ⟨t₁, ht₁, hat⟩ := scan_delimiter hdone.start he.1 he.2
      have hpushed : ∃ datas : List Data, s'.out.pushed =
          (t.out.flush (ms.multipart t.base)).pushed ++ datas.map .node := by
        by_cases hending : line.ending = .none
        · have hbytes : line.bytes = content line := by
            rw [Line.bytes, content, hending]
            rfl
          rw [BodyEnd.bytes, hbytes, ht₁, ok_bind, BodyEnd.final, decide_eq_true hending,
            if_pos rfl] at hs'
          exact hat.flushStream hdone.start hflushed hs'
        · rw [BodyEnd.bytes, bytes_eq_content hending, List.foldlM_append, ht₁, ok_bind,
            BodyEnd.final, decide_eq_false hending] at hs'
          obtain ⟨t₂, ht₂, hs'⟩ := bind_eq_ok.mp hs'
          obtain ⟨t₃, ht₃, hs₃⟩ := bind_eq_ok.mp ht₂
          cases hs₃
          cases hs'
          exact hat.lineFeed hdone.start ht₃
      obtain ⟨datas, hdatas⟩ := hpushed
      rw [hdone.base, hdone.out] at hdatas
      rw [← hdone.delimiter hstart hlines line]
      exact emitted_iff hstart.output hdatas _
  | input last =>
      obtain ⟨s'', before, pad, after, hs'', hpad, hout⟩ := lastLine hdone.start he.1 he.2
      have hsame : s'' = s' := Except.ok.inj (hs''.symm.trans hs')
      rw [← hdone.input hstart hlines hpad, ← hsame]
      rw [hdone.base, hdone.out, BodyOutput.append_append] at hout
      have hpushed : s''.out.pushed =
          ((s.out.append (ms.multipart s.base) (ms.node s.base) (value ++ (t.pendingLineBreak ++
            (before ++ (t.candidatePadding.pushAll pad).bytes ++ after)))).flush
              (ms.multipart s.base)).pushed ++ ([] : List Data).map .node := by
        rw [hout]
        exact (List.append_nil _).symm
      exact emitted_iff hstart.output hpushed _

theorem sampleStart_bodyStart : BodyStart (plainMailsplit [[0x62]]) [[0x62]] sampleStart :=
  ⟨sampleStart_lineStart, rfl, rfl⟩

/-- The delimiter line `--b`. -/
def sampleDelimiter : BodyEnd := .delimiter ⟨[HYPHEN, HYPHEN, 0x62], .crlf⟩

theorem sampleDelimiter_found : Found [[0x62]] [HYPHEN, HYPHEN, 0x62, CR] :=
  ⟨HYPHEN, [0x62], [], [CR], ⟨.inl rfl, ⟨.inl (by decide), nofun, nofun⟩, unblank_cr [], rfl⟩,
    .inr rfl⟩

/-- A body of one line and a delimiter, cut inside the line break between them. -/
theorem body_bytes_exact_sample :
    ∃ s', readBody (plainMailsplit [[0x62]]) sampleStart
        [[0x68, CR], [LF, HYPHEN, HYPHEN, 0x62, CR, LF]] sampleDelimiter = .ok s' ∧
      (Emitted sampleStart s' () [0x68] ↔
        BodyIntact [[0x62]] (fun _ => false) [⟨[0x68], .crlf⟩] sampleDelimiter) := by
  have hline : ∀ line ∈ [(⟨[0x68], .crlf⟩ : Line)], BodyLine [[0x62]] line := by
    intro line hline
    obtain rfl := List.mem_singleton.mp hline
    refine ⟨by decide +kernel, nofun, nofun, ?_⟩
    rintro ⟨x, u, pad, rest, hpadded, -⟩
    have hlead := hpadded.lead
    rw [← (List.cons.inj hpadded.eq).1] at hlead
    exact hlead.elim (by decide) (by decide)
  have hok : (readBody (plainMailsplit [[0x62]]) sampleStart
      [[0x68, CR], [LF, HYPHEN, HYPHEN, 0x62, CR, LF]] sampleDelimiter).isOk = true := by
    decide +kernel
  cases hs' : readBody (plainMailsplit [[0x62]]) sampleStart
      [[0x68, CR], [LF, HYPHEN, HYPHEN, 0x62, CR, LF]] sampleDelimiter with
  | error e => rw [hs'] at hok; cases hok
  | ok s' =>
      exact ⟨s', rfl, body_bytes_exact (plainMailsplit_regular _) sampleStart_bodyStart hline
        (e := sampleDelimiter) ⟨by decide +kernel, sampleDelimiter_found⟩ rfl hs'⟩

/-- A last line of one dash keeps the carriage return of the line break in front of the
delimiter. -/
theorem dash_keeps_carriageReturn :
    ((readBody (plainMailsplit [[0x62]]) sampleStart
        [[HYPHEN, CR, LF, HYPHEN, HYPHEN, 0x62, CR, LF]] sampleDelimiter).map
      fun s' => bodyBytes () s'.out.pushed) = .ok [HYPHEN, CR] ∧
    sampleDelimiter.text [⟨[HYPHEN], .crlf⟩] = [HYPHEN] ∧
    ¬ IsDelimiter [[0x62]] [HYPHEN] ∧ IsDelimiter [[0x62]] [HYPHEN, HYPHEN, 0x62] := by
  refine ⟨by decide +kernel, rfl, ?_, ⟨[0x62], by decide, false, [], nofun, rfl⟩⟩
  rintro ⟨b, -, closing, pad, -, heq⟩
  cases (List.cons.inj heq).2

end BoundedMimeSplitter

end MailPortal.Mime
