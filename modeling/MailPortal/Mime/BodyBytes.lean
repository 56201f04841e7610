import MailPortal.Mime.Padding
import MailPortal.Mime.Recognition

/-!
# The End of a Body Line

What the splitter has written when the line feed of a body line arrives, and the line break
that it keeps back.

Main result: `bodyLine`. A line that is no delimiter is written with its padding from the
packed bits (`LineDone`). Of its line break the line feed is kept back, and the carriage
return too when the line was no longer held back as it arrived (`ReturnKept`).
-/

namespace MailPortal.Mime

open Lines Failure

variable {boundaries : List (List UInt8)}
variable {line : List UInt8}
variable {before pad after : List UInt8}

/-! ### The end of a line -/

namespace BoundedMimeSplitter

variable {M Node Data : Type} [DecidableEq Node] {ms : Mailsplit M Node Data}
  {s t : BoundedMimeSplitter M Node Data}

/-- A held line has no padding. -/
theorem Held.linePad (hcr : ∀ b ∈ boundaries, CR ∉ b) (h : Held ms boundaries s t line) :
    LinePad boundaries line line [] [] := by
  refine ⟨by simp, fun hne => absurd rfl hne, fun x u pad rest hline _ _ => ?_⟩
  have hheld : HeldLine boundaries line :=
    h.heldLine.resolve_left fun hnil => nomatch hnil.symm.trans hline.eq
  exact (hheld.not_padded hcr hline).1

/-- After a line the next one starts. -/
theorem LineStart.next (hstart : LineStart ms boundaries s) (h : Kept ms boundaries s t)
    (hfresh : t.resetCandidate = t) (hstreaming : t.streamingBodyLine = false)
    (hcr : t.streamingCarriageReturn = false) : LineStart ms boundaries t :=
  ⟨h.base ▸ hstart.body, hfresh, hstreaming, hcr, h.active, hstart.no_cr⟩

/-- What a line that is no delimiter has written when its line feed arrives, with the line
break that is kept back. -/
structure LineDone (ms : Mailsplit M Node Data) (boundaries : List (List UInt8))
    (s t : BoundedMimeSplitter M Node Data) (line : List UInt8) : Prop where
  start : LineStart ms boundaries t
  base : t.base = s.base
  written : ∃ before pad after value, LinePad boundaries line before pad after ∧
    t.candidatePadding = (s.candidatePadding.pushAll pad).clear ∧
    t.out = s.out.append (ms.multipart s.base) (ms.node s.base) (s.pendingLineBreak ++ value) ∧
    value ++ t.pendingLineBreak =
      before ++ (s.candidatePadding.pushAll pad).bytes ++ after ++ [LF]

/-- The line feed after an ordinary line. -/
theorem Ordinary.lineFeed (hstart : LineStart ms boundaries s)
    (h : Ordinary ms boundaries s t before pad after)
    (hpad : LinePad boundaries line before pad after) :
    ∃ t', t.step ms LF = .ok t' ∧ LineDone ms boundaries s t' line ∧
      t'.pendingLineBreak = if t.streamingCarriageReturn then [CR, LF] else [LF] := by
  have hbody := hstart.body
  rw [← h.base] at hbody
  obtain ⟨value, hout, hvalue⟩ := h.written
  have hfeed : t.streamByte ms LF =
      (t.setReturn false).endLine (if t.streamingCarriageReturn then [CR, LF] else [LF]) := by
    cases hcr : t.streamingCarriageReturn with
    | true => rw [BoundedMimeSplitter.streamByte, if_pos hcr, if_pos rfl, if_pos rfl]
    | false =>
        rw [BoundedMimeSplitter.streamByte, hcr, if_neg Bool.false_ne_true,
          BoundedMimeSplitter.plainByte, if_pos rfl, if_neg Bool.false_ne_true,
          setReturn_self hcr]
  refine ⟨t.streamByte ms LF, step_streaming hbody h.streaming LF, ?_⟩
  rw [hfeed]
  refine ⟨⟨hstart.next ⟨h.base, h.active⟩ ?_ rfl rfl, h.base, before, pad, after, value, hpad,
    h.padding, hout, ?_⟩, rfl⟩
  · exact congrArg (fun t => endLine (setReturn t false) _) h.fresh
  · show value ++ (if t.streamingCarriageReturn then [CR, LF] else [LF]) = _
    rw [PackedPadding.pushAll, ← hvalue]
    cases t.streamingCarriageReturn <;> simp

/-- The line feed after a line that is held back and is no delimiter. -/
theorem Held.lineFeed (hstart : LineStart ms boundaries s) (h : Held ms boundaries s t line)
    (hfound : ¬ Found boundaries line) :
    ∃ t', t.step ms LF = .ok t' ∧ LineDone ms boundaries s t' line ∧
      t'.pendingLineBreak = if line.getLast? = some CR then [CR, LF] else [LF] := by
  have hbody := hstart.body
  rw [← h.base] at hbody
  have hunmatched : t.matchedCandidateBoundary = none := by
    rw [← Option.not_isSome_iff_eq_none, h.found_iff hstart.no_cr]
    exact hfound
  let candidate := if line.getLast? = some CR then line.dropLast else line
  let ending := if line.getLast? = some CR then [CR, LF] else [LF]
  have hparts : candidate ++ ending = line ++ [LF] := by
    by_cases hlast : line.getLast? = some CR
    · have hline := List.dropLast_append_getLast? CR hlast
      simp only [candidate, ending, if_pos hlast]
      conv_rhs => rw [← hline]
      simp
    · simp only [candidate, ending, if_neg hlast]
  let t₁ : BoundedMimeSplitter M Node Data := { t with candidate := candidate }
  have hturn : t.lineFeedTurn ms = t₁.finishCandidateLine ms ending := by
    have hending : (if t.candidateCarriageReturn || t.candidate.getLast? = some CR then [CR, LF]
        else [LF]) = ending := by
      rw [h.carriageReturn, h.candidate]
      simp [ending]
    rw [lineFeedTurn, hending]
    congr 1
    by_cases hlast : line.getLast? = some CR
    · have hpos : 0 < t.candidate.length := by
        rw [h.candidate]
        exact List.length_pos_iff.mpr fun hnil => by rw [hnil] at hlast; cases hlast
      simp only [h.boundary, ending, if_pos hlast, t₁, candidate]
      rw [if_pos (by simp [hpos]), h.candidate]
    · simp only [ending, if_neg hlast, t₁, candidate]
      rw [if_neg (by simp), ← h.candidate]
  have hfinish : t₁.finishCandidateLine ms ending =
      .ok ((t₁.startOrdinaryBodyLine ms).endLine ending) := by
    have hnone : t₁.lineBoundary = none := by
      show (t.candidateBoundary.orElse fun _ => t.matchedCandidateBoundary) = none
      rw [h.boundary]
      exact hunmatched
    rw [finishCandidateLine, hnone]
    rfl
  have hordinary : Ordinary ms boundaries s (t₁.startOrdinaryBodyLine ms) candidate [] [] := by
    refine ordinary_of_waiting ⟨⟨h.base, h.active⟩, h.streaming, h.noReturn, h.pending, h.out⟩
      h.padding ?_
    show candidate ++ t.candidatePadding.bytes ++ (if t.candidateCarriageReturn then [CR] else []) =
      candidate ++ s.candidatePadding.bytes ++ []
    rw [h.padding, h.carriageReturn, if_neg Bool.false_ne_true]
  have hreturn : (t₁.startOrdinaryBodyLine ms).streamingCarriageReturn = false := by
    rw [startOrdinaryBodyLine_return]
    exact h.noReturn
  have hempty : s.candidatePadding.bytes = [] := by
    simp [PackedPadding.bytes, hstart.padding]
  have hfresh := congrArg (endLine · ending) hordinary.fresh
  obtain ⟨value, hout, hvalue⟩ := hordinary.written
  rw [hreturn, if_neg Bool.false_ne_true, List.append_nil, List.append_nil] at hvalue
  refine ⟨(t₁.startOrdinaryBodyLine ms).endLine ending, ?_, ⟨hstart.next
    ⟨hordinary.base, hordinary.active⟩ hfresh rfl hreturn, hordinary.base,
    line, [], [], value, h.linePad hstart.no_cr, hordinary.padding, hout, ?_⟩, rfl⟩
  · rw [step, if_neg hbody, bodyByte, h.streaming, if_neg Bool.false_ne_true, candidateByte,
      if_pos rfl, hturn, hfinish]
  · show value ++ ending = line ++ (s.candidatePadding.pushAll []).bytes ++ [] ++ [LF]
    rw [hvalue, PackedPadding.pushAll, List.foldl_nil, hempty]
    simpa using hparts

/-! ### Body lines -/

/-- A line of a body that the scanner does not take for a delimiter
(`Scanned.boundaryFound_iff`). -/
structure BodyLine (boundaries : List (List UInt8)) (line : Line) : Prop where
  no_lf : ∀ b ∈ line.body, b ≠ LF
  ending : line.ending ≠ .none
  lf : line.ending = .lf → line.body.getLast? ≠ some CR
  unfound : ¬ Found boundaries (line.body ++ heldReturn line.ending)

/-- A delimiter with padding so far is found when the line ends. -/
theorem PaddedState.found (h : PaddedState ms boundaries s t line) : Found boundaries line := by
  obtain ⟨x, u, pad, hline, -⟩ := h.parts
  refine ⟨x, u, pad, _, hline, ?_⟩
  cases t.candidateCarriageReturn
  · exact .inl rfl
  · exact .inr rfl

/-- A carriage return that is held back is the last byte of its line. -/
theorem Ordinary.getLast (hstart : LineStart ms boundaries s)
    (h : Ordinary ms boundaries s t before pad after)
    (hpad : LinePad boundaries line before pad after) (hcr : t.streamingCarriageReturn = true) :
    line.getLast? = some CR := by
  obtain ⟨value, -, hvalue⟩ := h.written
  rw [hcr, if_pos rfl] at hvalue
  have hlast := congrArg List.getLast? hvalue
  rw [List.getLast?_concat] at hlast
  rw [hpad.parts, hlast]
  by_cases hafter : after = []
  · have hnil : pad = [] := not_not.mp fun hne => (hpad.found hne).1 hafter
    have hempty : s.candidatePadding.bytes = [] := by
      simp [PackedPadding.bytes, hstart.padding]
    rw [hnil, List.foldl_nil, hempty]
  · rw [List.getLast?_append_of_ne_nil _ hafter, List.getLast?_append_of_ne_nil _ hafter]

/-- The bytes of a line in front of its line feed. -/
def content (line : Line) : List UInt8 := line.body ++ heldReturn line.ending

/-- The bytes of a line that is ended. -/
theorem bytes_eq_content {line : Line} (h : line.ending ≠ .none) :
    line.bytes = content line ++ [LF] := by
  rw [Line.bytes, content, heldReturn]
  cases hending : line.ending with
  | none => exact absurd hending h
  | lf => simp [Ending.bytes]
  | crlf => simp [Ending.bytes]

/-- The carriage return of the line break is kept with the line feed: the line was no longer
held back when it arrived. -/
def ReturnKept (boundaries : List (List UInt8)) (line : Line) : Prop :=
  line.ending = .crlf ∧ ¬ HeldLine boundaries line.body

theorem streamByte_cr (t : BoundedMimeSplitter M Node Data) :
    (t.streamByte ms CR).streamingCarriageReturn = true := by
  rw [streamByte, if_neg (show CR ≠ LF by decide), plainByte_cr, plainByte_cr]
  split <;> rfl

/-- A line that is held back with a carriage return at its end has no other bytes. -/
theorem HeldLine.concat_cr (hcr : ∀ b ∈ boundaries, CR ∉ b)
    (h : HeldLine boundaries (line ++ [CR])) :
    line = [] := by
  obtain ⟨x, -, hone | ⟨text, heq, htext⟩⟩ := h
  · exact (List.append_inj' (hone.trans (List.nil_append [x]).symm) rfl).1
  · have hlast := congrArg List.getLast? heq
    rw [List.getLast?_concat] at hlast
    cases text with
    | nil => exact absurd (Option.some.inj hlast) (show CR ≠ HYPHEN by decide)
    | cons c text =>
        have hmem : CR ∈ c :: text := List.mem_of_getLast? (by simpa using hlast.symm)
        exact absurd hmem (htext.no_cr hcr)

/-- The carriage return in front of the line feed of a line that is ordinary: it is held back
for the line break, unless the line was held back so far. -/
theorem Scanned.step_return (hstart : LineStart ms boundaries s)
    (h : Scanned ms boundaries s t line) (hunfound : ¬ Found boundaries (line ++ [CR]))
    {t' : BoundedMimeSplitter M Node Data} (hstep : t.step ms CR = .ok t')
    (hdead : Dead boundaries (line ++ [CR])) :
    t'.streamingCarriageReturn = true ↔ ¬ HeldLine boundaries line := by
  rcases h with h | h | ⟨before, pad, after, h, hpad, hdead'⟩
  · obtain ⟨t'', hturn, -⟩ := h.turn hstart CR
    rw [h.toWaiting.step hstart (by decide), hturn] at hstep
    cases hstep
    have hreturn := (candidateTurn_spec hturn).2.2
    dsimp only at hreturn
    have hheld : HeldLine boundaries line := by
      refine h.heldLine.resolve_left fun hnil => hdead.held [] ?_
      rw [hnil]
      exact ⟨CR, .inr rfl, .inl rfl⟩
    rw [if_pos rfl, hreturn, h.noReturn]
    exact ⟨nofun, fun hne => absurd hheld hne⟩
  · obtain ⟨x, u, pad, hline, -, -, -⟩ := h.parts
    -- one carriage return is part of a delimiter, a second one is not
    cases hcr : t.candidateCarriageReturn with
    | false =>
        rw [hcr, if_neg Bool.false_ne_true] at hline
        refine absurd ⟨x, u, pad, [CR], ⟨hline.lead, hline.padded, unblank_cr [], ?_⟩, .inr rfl⟩
          hunfound
        rw [hline.eq]
        simp
    | true =>
        rw [hcr, if_pos rfl] at hline
        have hboundary : t.candidateBoundary.isSome = true := by
          obtain ⟨found, hfound, -⟩ := h.boundary
          rw [hfound]
          rfl
        have hturn : t.candidateTurn ms CR = .ok (t.startOrdinaryBodyLine ms, false) := by
          rw [candidateTurn, if_pos hboundary, if_pos hcr]
        rw [h.toWaiting.step hstart (by decide), hturn] at hstep
        cases hstep
        exact ⟨fun _ hheld => (hheld.not_padded hstart.no_cr hline).2 rfl,
          fun _ => streamByte_cr _⟩
  · rw [h.step hstart] at hstep
    cases hstep
    have hheld := hdead'.held []
    rw [List.append_nil] at hheld
    exact ⟨fun _ => hheld, fun _ => streamByte_cr t⟩

/-- **A line that is no delimiter**, with its line break. -/
theorem bodyLine (hstart : LineStart ms boundaries s) {line : Line}
    (h : BodyLine boundaries line) :
    ∃ t, line.bytes.foldlM (step ms) s = .ok t ∧
      LineDone ms boundaries s t (content line) ∧
      (ReturnKept boundaries line → t.pendingLineBreak = [CR, LF]) ∧
      (¬ ReturnKept boundaries line → t.pendingLineBreak = [LF]) := by
  obtain ⟨t, ht, hscanned, hreturn⟩ : ∃ t, (content line).foldlM (step ms) s = .ok t ∧
      Scanned ms boundaries s t (content line) ∧
      (∀ before pad after, Ordinary ms boundaries s t before pad after →
        LinePad boundaries (content line) before pad after → Dead boundaries (content line) →
        (t.streamingCarriageReturn = true ↔ ReturnKept boundaries line)) := by
    have hunfound := h.unfound
    obtain ⟨t₀, ht₀, hscanned₀⟩ := scan hstart h.no_lf
    cases hending : line.ending with
    | none => exact absurd hending h.ending
    | lf =>
        have hcontent : content line = line.body := by
          rw [content, hending, heldReturn, if_neg (show Ending.lf ≠ .crlf by decide),
            List.append_nil]
        rw [hcontent]
        refine ⟨t₀, ht₀, hscanned₀, fun before pad after hordinary hpad _ => ⟨fun hcr => ?_, ?_⟩⟩
        · exact absurd (hordinary.getLast hstart hpad hcr) (h.lf hending)
        · rintro ⟨hcrlf, -⟩
          rw [hending] at hcrlf
          cases hcrlf
    | crlf =>
        have hcontent : content line = line.body ++ [CR] := by
          rw [content, hending, heldReturn, if_pos rfl]
        rw [← content, hcontent] at hunfound
        rw [hcontent]
        obtain ⟨t, ht, hscanned⟩ := hscanned₀.step hstart (show CR ≠ LF by decide)
        refine ⟨t, ?_, hscanned, fun _ _ _ _ _ hdead => ?_⟩
        · rw [List.foldlM_append, ht₀, ok_bind, List.foldlM_cons, ht]
          rfl
        · rw [hscanned₀.step_return hstart hunfound ht hdead, ReturnKept]
          exact ⟨fun hne => ⟨hending, hne⟩, fun hkept => hkept.2⟩
  have hrun : ∀ t', t.step ms LF = .ok t' → line.bytes.foldlM (step ms) s = .ok t' := by
    intro t' ht'
    rw [bytes_eq_content h.ending, List.foldlM_append, ht, ok_bind, List.foldlM_cons, ht']
    rfl
  rcases hscanned with hheld | hpadded | ⟨before, pad, after, hordinary, hpad, hdead⟩
  · obtain ⟨t', ht', hdone, hbreak⟩ := hheld.lineFeed hstart h.unfound
    have hkept : (content line).getLast? = some CR ↔ ReturnKept boundaries line := by
      cases hending : line.ending with
      | none => exact absurd hending h.ending
      | lf =>
          rw [content, hending, heldReturn, if_neg (show Ending.lf ≠ .crlf by decide),
            List.append_nil]
          refine ⟨fun hlast => absurd hlast (h.lf hending), fun hk => ?_⟩
          rw [ReturnKept, hending] at hk
          cases hk.1
      | crlf =>
          have hcontent : content line = line.body ++ [CR] := by
            rw [content, hending, heldReturn, if_pos rfl]
          rw [hcontent] at hheld ⊢
          have hnil : line.body = [] := HeldLine.concat_cr hstart.no_cr
            (hheld.heldLine.resolve_left (by simp))
          refine ⟨fun _ => ⟨hending, ?_⟩, fun _ => List.getLast?_concat⟩
          rw [hnil]
          rintro ⟨x, -, hone | ⟨text, htext, -⟩⟩
          · cases hone
          · cases htext
    refine ⟨t', hrun t' ht', hdone, fun hk => ?_, fun hk => ?_⟩
    · rw [hbreak, if_pos (hkept.mpr hk)]
    · rw [hbreak, if_neg (mt hkept.mp hk)]
  · exact absurd hpadded.found h.unfound
  · obtain ⟨t', ht', hdone, hbreak⟩ := hordinary.lineFeed hstart hpad
    have hkept := hreturn before pad after hordinary hpad hdead
    refine ⟨t', hrun t' ht', hdone, fun hk => ?_, fun hk => ?_⟩
    · rw [hbreak, if_pos (hkept.mpr hk)]
    · rw [hbreak, if_neg (mt hkept.mp hk)]

end BoundedMimeSplitter

end MailPortal.Mime
