import MailPortal.Mime.Splitter
import Mathlib.Data.List.Induction
import Mathlib.Data.List.TakeWhile

/-!
# The Splitter as a Byte Machine

`BoundedMimeSplitter` switches between a loop over bytes and a search for the next line feed.
Here it is one step per byte, `step`, with a carriage return held back by a flag.

Main results:

* `transform_eq`: reading a chunk is stepping through its bytes.
* `split_chunk_invariant`: what comes out, chunk for chunk, or the error, depends on the
  concatenated input only.

The superclass enters through one assumption: its state is that of headers or of a body, the
only two that it has.
-/

namespace MailPortal.Mime

open Lines Failure

variable {b : UInt8} {line : List UInt8}

namespace BoundedMimeSplitter

variable {M Node Data : Type} [DecidableEq Node] (ms : Mailsplit M Node Data)

/-! ### One byte -/

/-- A byte of a header line. -/
def headByte (s : BoundedMimeSplitter M Node Data) (byte : UInt8) :
    Except MimeError (BoundedMimeSplitter M Node Data) := do
  let s ← s.growHeaderLine [byte]
  if byte = LF then s.finishHeaderLine ms else .ok s

/-- A line break ends a body line. It is kept until it is known not to precede a delimiter. -/
def endLine (s : BoundedMimeSplitter M Node Data) (lineBreak : List UInt8) :
    BoundedMimeSplitter M Node Data :=
  { s with pendingLineBreak := lineBreak, streamingBodyLine := false }

/-- Hold back a carriage return, or not. -/
def setReturn (s : BoundedMimeSplitter M Node Data) (held : Bool) :
    BoundedMimeSplitter M Node Data :=
  { s with streamingCarriageReturn := held }

/-- A byte of a body line, with no carriage return pending. -/
def plainByte (s : BoundedMimeSplitter M Node Data) (byte : UInt8) :
    BoundedMimeSplitter M Node Data :=
  if byte = LF then s.endLine [LF]
  else if byte = CR then s.setReturn true
  else s.appendBody ms [byte]

/-- A byte of a body line. -/
def streamByte (s : BoundedMimeSplitter M Node Data) (byte : UInt8) :
    BoundedMimeSplitter M Node Data :=
  if s.streamingCarriageReturn then
    if byte = LF then (s.setReturn false).endLine [CR, LF]
    else ((s.setReturn false).appendBody ms [CR]).plainByte ms byte
  else s.plainByte ms byte

/-- A byte of a line that may still be a delimiter. -/
def candidateByte (s : BoundedMimeSplitter M Node Data) (byte : UInt8) :
    Except MimeError (BoundedMimeSplitter M Node Data) :=
  if byte = LF then s.lineFeedTurn ms
  else do
    let (s, used) ← s.candidateTurn ms byte
    .ok (if used then s else s.streamByte ms byte)

/-- A byte of a body. -/
def bodyByte (s : BoundedMimeSplitter M Node Data) (byte : UInt8) :
    Except MimeError (BoundedMimeSplitter M Node Data) :=
  if s.streamingBodyLine then .ok (s.streamByte ms byte) else s.candidateByte ms byte

/-- One byte of the input. -/
def step (s : BoundedMimeSplitter M Node Data) (byte : UInt8) :
    Except MimeError (BoundedMimeSplitter M Node Data) :=
  if ms.state s.base = mailsplitHeadState then s.headByte ms byte else s.bodyByte ms byte

variable {ms}

/-! ### Body lines -/

theorem appendBody_append (s : BoundedMimeSplitter M Node Data) (a b : List UInt8) :
    (s.appendBody ms a).appendBody ms b = s.appendBody ms (a ++ b) := by
  simp only [appendBody, BodyOutput.append_append]

omit [DecidableEq Node] in
theorem setReturn_self {s : BoundedMimeSplitter M Node Data} {held : Bool}
    (h : s.streamingCarriageReturn = held) : s.setReturn held = s := by
  subst h
  rfl

/-- The bytes that a line of a body hands on while it may go on. -/
def settled (line : List UInt8) : List UInt8 :=
  if line.getLast? = some CR then line.dropLast else line

section

variable (s : BoundedMimeSplitter M Node Data)
include s

/-- A carriage return that is held back belongs to the body when no line feed follows. -/
theorem streamByte_held (hb : b ≠ LF) :
    (s.setReturn true).streamByte ms b =
      ((s.setReturn false).appendBody ms [CR]).plainByte ms b := by
  rw [streamByte, if_pos (show (s.setReturn true).streamingCarriageReturn = true from rfl),
    if_neg hb]
  rfl

theorem streamByte_free (b : UInt8) :
    (s.setReturn false).streamByte ms b = (s.setReturn false).plainByte ms b := by
  rw [streamByte, if_neg nofun]

theorem plainByte_cr :
    s.plainByte ms CR = s.setReturn true := rfl

theorem plainByte_of_ne (hb : b ≠ LF) (hcr : b ≠ CR) : s.plainByte ms b = s.appendBody ms [b] := by
  rw [plainByte, if_neg hb, if_neg hcr]

end

/-- The bytes of a line without its line feed, one at a time: a carriage return at the end is
held back. -/
theorem foldl_streamByte {s : BoundedMimeSplitter M Node Data} (hline : ∀ b ∈ line, b ≠ LF)
    (hcr : s.streamingCarriageReturn = false) :
    line.foldl (streamByte ms) s =
      (s.appendBody ms (settled line)).setReturn (line.getLast? = some CR) := by
  induction line using List.reverseRecOn with
  | nil => exact (setReturn_self hcr).symm
  | append_singleton line b ih =>
      have hb : b ≠ LF := hline b (by simp)
      rw [List.foldl_concat, ih fun c hc => hline c (List.mem_append_left _ hc)]
      have hsettled : settled (line ++ [b]) = if b = CR then line else line ++ [b] := by
        simp [settled]
      have hlast : decide ((line ++ [b]).getLast? = some CR) = decide (b = CR) := by simp
      rw [hsettled, hlast]
      by_cases hcrlast : line.getLast? = some CR
      · have hline : line.dropLast ++ [CR] = line := List.dropLast_append_getLast? CR hcrlast
        have happend : (((s.appendBody ms (settled line)).setReturn false).appendBody ms [CR]) =
            (s.appendBody ms line).setReturn false := by
          rw [settled, if_pos hcrlast]
          calc ((s.appendBody ms line.dropLast).setReturn false).appendBody ms [CR]
              = ((s.appendBody ms line.dropLast).appendBody ms [CR]).setReturn false := rfl
            _ = _ := by rw [appendBody_append, hline]
        rw [decide_eq_true hcrlast, streamByte_held _ hb, happend]
        by_cases hbcr : b = CR
        · subst hbcr
          rfl
        · rw [plainByte_of_ne _ hb hbcr, if_neg hbcr, decide_eq_false hbcr]
          exact congrArg (setReturn · false) (appendBody_append s line [b])
      · rw [decide_eq_false hcrlast, streamByte_free, settled, if_neg hcrlast]
        by_cases hbcr : b = CR
        · subst hbcr
          rfl
        · rw [plainByte_of_ne _ hb hbcr, if_neg hbcr, decide_eq_false hbcr]
          exact congrArg (setReturn · false) (appendBody_append s line [b])

section

variable {s : BoundedMimeSplitter M Node Data} (hstate : ms.state s.base ≠ mailsplitHeadState)
  (hstream : s.streamingBodyLine = true)
include hstate hstream

/-- A byte of a line that is no delimiter. -/
theorem step_streaming (byte : UInt8) : s.step ms byte = .ok (s.streamByte ms byte) := by
  rw [step, if_neg hstate, bodyByte, if_pos hstream]

/-- Bytes of a line that is no delimiter. -/
theorem foldlM_streaming (hline : ∀ b ∈ line, b ≠ LF) (hcr : s.streamingCarriageReturn = false) :
    line.foldlM (step ms) s =
      .ok ((s.appendBody ms (settled line)).setReturn (line.getLast? = some CR)) := by
  rw [← foldl_streamByte hline hcr]
  induction line using List.reverseRecOn with
  | nil => rfl
  | append_singleton line b ih =>
      have hrest : ∀ c ∈ line, c ≠ LF := fun c hc => hline c (List.mem_append_left _ hc)
      let s₁ := s.appendBody ms (settled line)
      have hb := step_streaming (s := s₁.setReturn (line.getLast? = some CR)) hstate hstream b
      rw [List.foldlM_append, ih hrest, ok_bind, List.foldl_concat, foldl_streamByte hrest hcr,
        List.foldlM_cons, hb]
      rfl

end

/-- A turn of the streaming loop in a chunk whose line goes on. -/
theorem streamTurn_open (s : BoundedMimeSplitter M Node Data) {chunk : List UInt8}
    (h : chunk.dropWhile (· ≠ LF) = []) :
    s.streamTurn ms chunk =
      ((s.appendBody ms (settled (chunk.takeWhile (· ≠ LF)))).setReturn
        ((chunk.takeWhile (· ≠ LF)).getLast? = some CR), []) := by
  rw [streamTurn, h]
  rfl

/-- A turn of the streaming loop that ends the line. -/
theorem streamTurn_closed (s : BoundedMimeSplitter M Node Data) {chunk rest : List UInt8}
    (h : chunk.dropWhile (· ≠ LF) = b :: rest) :
    s.streamTurn ms chunk =
      ((s.appendBody ms (settled (chunk.takeWhile (· ≠ LF)))).endLine
        (if (chunk.takeWhile (· ≠ LF)).getLast? = some CR then [CR, LF] else [LF]), rest) := by
  rw [streamTurn, h]
  rfl

/-- A line feed after a carriage return that is held back, or after none. -/
theorem streamByte_lf {s : BoundedMimeSplitter M Node Data}
    (hcr : s.streamingCarriageReturn = false) (held : Prop) [Decidable held] :
    (s.setReturn (decide held)).streamByte ms LF = s.endLine (if held then [CR, LF] else [LF]) := by
  by_cases h : held
  · rw [decide_eq_true h, if_pos h, streamByte,
      if_pos (show (s.setReturn true).streamingCarriageReturn = true from rfl), if_pos rfl]
    exact congrArg (endLine · [CR, LF]) (setReturn_self hcr)
  · rw [decide_eq_false h, if_neg h, setReturn_self hcr, streamByte, hcr, if_neg nofun, plainByte,
      if_pos rfl]

/-- **A turn of the streaming loop** steps through the bytes it uses up. -/
theorem streamTurn_eq {s : BoundedMimeSplitter M Node Data} {chunk : List UInt8}
    (hstate : ms.state s.base ≠ mailsplitHeadState) (hstream : s.streamingBodyLine = true)
    (hcr : s.streamingCarriageReturn = false) (hne : chunk ≠ []) :
    ∃ used, used ≠ [] ∧ chunk = used ++ (s.streamTurn ms chunk).2 ∧
      used.foldlM (step ms) s = .ok (s.streamTurn ms chunk).1 ∧
      (s.streamTurn ms chunk).1.base = s.base := by
  have hline : ∀ b ∈ chunk.takeWhile (· ≠ LF), b ≠ LF := fun b hb =>
    by simpa using List.mem_takeWhile_imp hb
  have hfold := foldlM_streaming hstate hstream hline hcr
  have hparts : chunk.takeWhile (· ≠ LF) ++ chunk.dropWhile (· ≠ LF) = chunk :=
    List.takeWhile_append_dropWhile
  cases hdrop : chunk.dropWhile (· ≠ LF) with
  | nil =>
      rw [hdrop, List.append_nil] at hparts
      rw [streamTurn_open s hdrop]
      rw [hparts] at hfold ⊢
      exact ⟨chunk, hne, (List.append_nil _).symm, hfold, rfl⟩
  | cons b rest =>
      obtain rfl : b = LF := by
        have hhead := List.head?_dropWhile_not (· ≠ LF) chunk
        rw [hdrop] at hhead
        simpa using hhead
      rw [hdrop] at hparts
      rw [streamTurn_closed s hdrop]
      generalize chunk.takeWhile (· ≠ LF) = line at hfold hparts
      refine ⟨line ++ [LF], by simp, by rw [List.append_assoc]; exact hparts.symm, ?_, rfl⟩
      let s₁ := s.appendBody ms (settled line)
      have hlf := step_streaming (s := s₁.setReturn (line.getLast? = some CR)) hstate hstream LF
      have hcr₁ : s₁.streamingCarriageReturn = false := hcr
      rw [List.foldlM_append, hfold, ok_bind, List.foldlM_cons, hlf, streamByte_lf hcr₁]
      rfl

/-! ### Header lines -/

omit [DecidableEq Node] in
/-- A header line that grows in two parts. -/
theorem growHeaderLine_append (s : BoundedMimeSplitter M Node Data) (a b : List UInt8) :
    (s.growHeaderLine a >>= fun s => s.growHeaderLine b) = s.growHeaderLine (a ++ b) := by
  simp only [growHeaderLine]
  by_cases ha : s.maxHeaderBytes < (s.headerLine ++ a).length
  · have hab : s.maxHeaderBytes < (s.headerLine ++ (a ++ b)).length := by
      simp only [List.length_append] at ha ⊢
      omega
    rw [if_pos ha, if_pos hab, error_bind]
  · rw [if_neg ha, ok_bind, List.append_assoc]

omit [DecidableEq Node] in
theorem growHeaderLine_base {s s' : BoundedMimeSplitter M Node Data} {bytes : List UInt8}
    (h : s.growHeaderLine bytes = .ok s') : s'.base = s.base := by
  rw [growHeaderLine] at h
  split at h
  · cases h
  · cases h
    rfl

section

variable {s : BoundedMimeSplitter M Node Data} (hstate : ms.state s.base = mailsplitHeadState)
  (hline : ∀ b ∈ line, b ≠ LF)
include hstate hline

/-- The bytes of a header line without its line feed, one at a time. -/
theorem foldlM_head (hne : line ≠ []) : line.foldlM (step ms) s = s.growHeaderLine line := by
  induction line using List.reverseRecOn with
  | nil => exact absurd rfl hne
  | append_singleton line b ih =>
      have hb : b ≠ LF := hline b (by simp)
      have hstep : ∀ s' : BoundedMimeSplitter M Node Data, s'.base = s.base →
          s'.step ms b = s'.growHeaderLine [b] := by
        intro s' hbase
        rw [step, hbase, if_pos hstate, headByte]
        simp only [if_neg hb]
        cases s'.growHeaderLine [b] <;> rfl
      by_cases hnil : line = []
      · rw [hnil, List.nil_append, List.foldlM_cons, hstep s rfl]
        cases s.growHeaderLine [b] <;> rfl
      · rw [List.foldlM_append, ih (fun c hc => hline c (List.mem_append_left _ hc)) hnil,
          ← growHeaderLine_append]
        cases hgrow : s.growHeaderLine line with
        | error e => rfl
        | ok s' =>
            rw [ok_bind, ok_bind, List.foldlM_cons, hstep s' (growHeaderLine_base hgrow)]
            cases s'.growHeaderLine [b] <;> rfl

/-- A header line with its line feed. -/
theorem foldlM_head_lf :
    (line ++ [LF]).foldlM (step ms) s =
      s.growHeaderLine (line ++ [LF]) >>= fun s => s.finishHeaderLine ms := by
  have hstep : ∀ s' : BoundedMimeSplitter M Node Data, s'.base = s.base →
      [LF].foldlM (step ms) s' = s'.growHeaderLine [LF] >>= fun s => s.finishHeaderLine ms := by
    intro s' hbase
    rw [List.foldlM_cons, step, hbase, if_pos hstate, headByte]
    cases s'.growHeaderLine [LF] with
    | error e => rfl
    | ok s'' =>
        rw [ok_bind, ok_bind, if_pos rfl]
        cases s''.finishHeaderLine ms <;> rfl
  by_cases hnil : line = []
  · rw [hnil, List.nil_append]
    exact hstep s rfl
  · rw [List.foldlM_append, foldlM_head hstate hline hnil, ← growHeaderLine_append]
    cases hgrow : s.growHeaderLine line with
    | error e => rfl
    | ok s' =>
        rw [ok_bind, ok_bind]
        exact hstep s' (growHeaderLine_base hgrow)

end

/-! ### Candidate lines -/

section

variable (s : BoundedMimeSplitter M Node Data)
include s

/-- All that was held back goes to the body at once. -/
theorem startOrdinaryBodyLine_eq :
    s.startOrdinaryBodyLine ms =
      { (s.appendBody ms (s.pendingLineBreak ++ s.candidate ++ s.candidatePadding.bytes ++
          if s.candidateCarriageReturn then [CR] else [])).resetCandidate with
        pendingLineBreak := []
        streamingBodyLine := true } := by
  rw [startOrdinaryBodyLine, ← appendBody_append, ← appendBody_append, ← appendBody_append]
  cases hcr : s.candidateCarriageReturn <;> simp [appendBody, resetCandidate, hcr]

@[simp] theorem startOrdinaryBodyLine_base : (s.startOrdinaryBodyLine ms).base = s.base := by
  rw [startOrdinaryBodyLine_eq]
  rfl

@[simp] theorem startOrdinaryBodyLine_return :
    (s.startOrdinaryBodyLine ms).streamingCarriageReturn = s.streamingCarriageReturn := by
  rw [startOrdinaryBodyLine_eq]
  rfl

@[simp] theorem startOrdinaryBodyLine_streaming :
    (s.startOrdinaryBodyLine ms).streamingBodyLine = true := rfl

end

/-- Looking up the boundaries leaves the superclass and a held carriage return as they are. -/
theorem boundaries_keeps {s s' : BoundedMimeSplitter M Node Data} (h : s.boundaries ms = .ok s') :
    s'.base = s.base ∧ s'.streamingCarriageReturn = s.streamingCarriageReturn := by
  rw [boundaries] at h
  split at h
  · cases h
    exact ⟨rfl, rfl⟩
  · obtain ⟨result, -, hs'⟩ := bind_eq_ok.mp h
    cases hs'
    exact ⟨rfl, rfl⟩

theorem advanceBoundaryCandidates_keeps {s : BoundedMimeSplitter M Node Data} {byte : UInt8}
    {result : BoundedMimeSplitter M Node Data × Bool}
    (h : s.advanceBoundaryCandidates ms byte = .ok result) :
    result.1.base = s.base ∧
      result.1.streamingCarriageReturn = s.streamingCarriageReturn := by
  rw [advanceBoundaryCandidates] at h
  split at h
  · cases h
    exact ⟨rfl, rfl⟩
  · split at h
    · obtain ⟨s', hs', hresult⟩ := bind_eq_ok.mp h
      cases hresult
      have hkeeps := boundaries_keeps hs'
      exact hkeeps
    · cases h
      exact ⟨rfl, rfl⟩

/-- A turn that does not use up its byte has found an ordinary line. -/
theorem candidateTurn_spec {s : BoundedMimeSplitter M Node Data} {byte : UInt8}
    {result : BoundedMimeSplitter M Node Data × Bool} (h : s.candidateTurn ms byte = .ok result) :
    result.1.base = s.base ∧ (result.2 = false → result.1.streamingBodyLine = true) ∧
      result.1.streamingCarriageReturn = s.streamingCarriageReturn := by
  rw [candidateTurn] at h
  split at h
  · split at h
    · cases h
      simp
    · split at h
      · cases h
        simp
      · split at h <;> cases h <;> simp
  · split at h
    · cases h
      exact ⟨startOrdinaryBodyLine_base _, nofun, startOrdinaryBodyLine_return _⟩
    · dsimp only at h
      split at h
      · cases h
        simp
      · split at h
        · cases h
          simp
        · obtain ⟨⟨s', remains⟩, hs', hresult⟩ := bind_eq_ok.mp h
          have hkeep := advanceBoundaryCandidates_keeps hs'
          dsimp only at hresult hkeep
          split at hresult <;> cases hresult
          · exact ⟨(startOrdinaryBodyLine_base _).trans hkeep.1, nofun,
              (startOrdinaryBodyLine_return _).trans hkeep.2⟩
          · exact ⟨hkeep.1, nofun, hkeep.2⟩

/-! ### Reading a chunk -/

/-- A chunk that reaches the scanner in the headers. -/
theorem consume_head {s : BoundedMimeSplitter M Node Data} {byte : UInt8} {chunk : List UInt8}
    (hstate : ms.state s.base = mailsplitHeadState) {turns : ℕ}
    (ih : ∀ (s : BoundedMimeSplitter M Node Data) (rest : List UInt8),
      rest.length ≤ chunk.length → consume ms turns s rest = rest.foldlM (step ms) s) :
    consume ms (turns + 1) s (byte :: chunk) = (byte :: chunk).foldlM (step ms) s := by
  have hline : ∀ b ∈ (byte :: chunk).takeWhile (· ≠ LF), b ≠ LF := fun b hb =>
    by simpa using List.mem_takeWhile_imp hb
  have hparts : (byte :: chunk).takeWhile (· ≠ LF) ++ (byte :: chunk).dropWhile (· ≠ LF) =
      byte :: chunk := List.takeWhile_append_dropWhile
  rw [consume, if_pos hstate]
  cases hdrop : (byte :: chunk).dropWhile (· ≠ LF) with
  | nil =>
      rw [hdrop, List.append_nil] at hparts
      rw [hparts] at hline ⊢
      exact (foldlM_head hstate hline nofun).symm
  | cons b rest =>
      obtain rfl : b = LF := by
        have hhead := List.head?_dropWhile_not (· ≠ LF) (byte :: chunk)
        rw [hdrop] at hhead
        simpa using hhead
      rw [hdrop] at hparts
      generalize (byte :: chunk).takeWhile (· ≠ LF) = line at hline hparts
      have hlength := congrArg List.length hparts
      simp only [List.length_append, List.length_cons] at hlength
      have hchunk : byte :: chunk = (line ++ [LF]) ++ rest := by simpa using hparts.symm
      rw [hchunk, List.foldlM_append, foldlM_head_lf hstate hline]
      dsimp only
      cases s.growHeaderLine (line ++ [LF]) with
      | error e => rfl
      | ok s' =>
          rw [ok_bind, ok_bind]
          cases s'.finishHeaderLine ms with
          | error e => rfl
          | ok s'' => exact ih s'' rest (by omega)

/-- With so many turns, chunks are read by stepping through their bytes. -/
def Consumes (ms : Mailsplit M Node Data) (turns : ℕ) : Prop :=
  ∀ (s : BoundedMimeSplitter M Node Data) (chunk : List UInt8), 3 * chunk.length + 3 ≤ turns →
    consume ms turns s chunk = chunk.foldlM (step ms) s

/-- The same of the loop that reads a body. -/
def ConsumesBody (ms : Mailsplit M Node Data) (turns : ℕ) : Prop :=
  ∀ (s : BoundedMimeSplitter M Node Data) (chunk : List UInt8),
    ms.state s.base ≠ mailsplitHeadState →
    3 * chunk.length + (if s.streamingBodyLine then 1 else 2) ≤ turns →
    consumeBody ms turns s chunk = chunk.foldlM (step ms) s

section Turn

variable {s : BoundedMimeSplitter M Node Data} {turns : ℕ} {byte : UInt8} {chunk : List UInt8}

section

variable (hbody : ConsumesBody ms turns) (hstate : ms.state s.base ≠ mailsplitHeadState)
  (hstream : s.streamingBodyLine = true)
include hbody hstate hstream

/-- A turn of the streaming loop, once no carriage return is held back. -/
theorem consumeBody_streamTurn (byte : UInt8) (hcr : s.streamingCarriageReturn = false)
    (hturns : 3 * chunk.length + 3 ≤ turns) :
    consumeBody ms turns (s.streamTurn ms (byte :: chunk)).1
      (s.streamTurn ms (byte :: chunk)).2 = (byte :: chunk).foldlM (step ms) s := by
  obtain ⟨used, hused, hchunk, hfold, hbase⟩ :=
    streamTurn_eq hstate hstream hcr (List.cons_ne_nil byte chunk)
  have hlength := congrArg List.length hchunk
  have hpos := List.length_pos_iff.mpr hused
  simp only [List.length_append, List.length_cons] at hlength
  rw [hbody _ _ (hbase ▸ hstate) (by split <;> omega)]
  conv_rhs => rw [hchunk, List.foldlM_append, hfold]
  rfl

/-- In a line that is streamed, a carriage return may be held back. -/
theorem consumeBody_streaming (hturns : 3 * chunk.length + 3 ≤ turns) :
    consumeBody ms (turns + 1) s (byte :: chunk) = (byte :: chunk).foldlM (step ms) s := by
  cases hcr : s.streamingCarriageReturn with
  | false =>
      rw [consumeBody, hstream, hcr]
      exact consumeBody_streamTurn hbody hstate hstream byte hcr hturns
  | true =>
      rw [consumeBody, if_neg (by simp [hstream]), if_pos hcr]
      let s₁ := (s.setReturn false).appendBody ms [CR]
      have hread := consumeBody_streamTurn (s := s₁) hbody hstate hstream byte rfl hturns
      rw [List.foldlM_cons, step_streaming (s := s₁) hstate hstream, ok_bind,
        streamByte, if_neg nofun] at hread
      rw [List.foldlM_cons, step_streaming hstate hstream, ok_bind, streamByte,
        if_pos hcr]
      by_cases hlf : byte = LF
      · rw [if_pos hlf]
        dsimp only
        rw [if_pos hlf]
        refine hbody ((s.setReturn false).endLine [CR, LF]) chunk hstate ?_
        split <;> omega
      · rw [if_neg hlf]
        dsimp only
        rw [if_neg hlf]
        exact hread

end

/-- In a line that may still be a boundary, a turn may leave its byte to the next one. -/
theorem consumeBody_candidate (hconsume : Consumes ms turns) (hbody : ConsumesBody ms turns)
    (hstate : ms.state s.base ≠ mailsplitHeadState) (hstream : s.streamingBodyLine = false)
    (hturns : 3 * chunk.length + 4 ≤ turns) :
    consumeBody ms (turns + 1) s (byte :: chunk) = (byte :: chunk).foldlM (step ms) s := by
  have hstep : s.step ms byte = s.candidateByte ms byte := by
    rw [step, if_neg hstate, bodyByte, hstream, if_neg nofun]
  rw [consumeBody, hstream, List.foldlM_cons, hstep, candidateByte]
  by_cases hlf : byte = LF
  · simp only [Bool.not_false, if_true, if_pos hlf]
    cases s.lineFeedTurn ms with
    | error e => rfl
    | ok s' =>
        rw [ok_bind, ok_bind]
        split
        · exact hconsume s' chunk (by omega)
        · next hstate' => exact hbody s' chunk hstate' (by split <;> omega)
  · simp only [Bool.not_false, if_true, if_neg hlf]
    cases hresult : s.candidateTurn ms byte with
    | error e => rfl
    | ok result =>
        obtain ⟨s', used⟩ := result
        obtain ⟨hbase, hused, -⟩ := candidateTurn_spec hresult
        have hstate' : ms.state s'.base ≠ mailsplitHeadState := by rwa [hbase]
        simp only [ok_bind]
        cases used with
        | true => exact hbody s' chunk hstate' (by split <;> omega)
        | false =>
            have hstream' : s'.streamingBodyLine = true := hused rfl
            have hrest := hbody s' (byte :: chunk) hstate' (by
              rw [hstream', if_pos rfl, List.length_cons]
              omega)
            rw [List.foldlM_cons, step_streaming hstate' hstream'] at hrest
            exact hrest

end Turn

/-- **Reading a chunk is stepping through its bytes**, for either loop, given turns enough. -/
theorem consume_eq (hregular : ms.Regular) (turns : ℕ) :
    Consumes ms turns ∧ ConsumesBody ms turns := by
  induction turns with
  | zero =>
      refine ⟨fun s chunk h => ?_, fun s chunk _ h => ?_⟩
      · omega
      · split at h <;> omega
  | succ turns ih =>
      obtain ⟨ihConsume, ihBody⟩ := ih
      refine ⟨fun s chunk h => ?_, fun s chunk hstate h => ?_⟩
      · cases chunk with
        | nil => rfl
        | cons byte chunk =>
            simp only [List.length_cons] at h
            by_cases hstate : ms.state s.base = mailsplitHeadState
            · exact consume_head hstate fun s rest hrest => ihConsume s rest (by omega)
            · have hbody : ms.state s.base = mailsplitBodyState :=
                (hregular s.base).resolve_left hstate
              rw [consume, if_neg hstate, if_neg (not_not_intro hbody)]
              refine ihBody s (byte :: chunk) hstate ?_
              simp only [List.length_cons]
              split <;> omega
      · cases chunk with
        | nil => rfl
        | cons byte chunk =>
            simp only [List.length_cons] at h
            cases hstream : s.streamingBodyLine with
            | true =>
                rw [hstream, if_pos rfl] at h
                exact consumeBody_streaming ihBody hstate hstream (by omega)
            | false =>
                rw [hstream, if_neg nofun] at h
                exact consumeBody_candidate ihConsume ihBody hstate hstream (by omega)

section

variable (hregular : ms.Regular) (s : BoundedMimeSplitter M Node Data)
include hregular s

/-- **Reading a chunk is stepping through its bytes.** -/
theorem transform_eq (chunk : List UInt8) : s.transform ms chunk = chunk.foldlM (step ms) s :=
  (consume_eq hregular _).1 s chunk (Nat.le_refl _)

/-- Reading chunks is stepping through all their bytes. -/
theorem transforms_eq (chunks : List (List UInt8)) :
    chunks.foldlM (transform ms) s = chunks.flatten.foldlM (step ms) s := by
  induction chunks generalizing s with
  | nil => rfl
  | cons chunk chunks ih =>
      rw [List.foldlM_cons, List.flatten_cons, List.foldlM_append, transform_eq hregular]
      congr 1
      funext s'
      exact ih s'

end

/-- **Where the input is cut makes no difference**: the same chunks come out, node by node and
byte by byte, or the same error. -/
theorem split_chunk_invariant (hregular : ms.Regular) (base : M) (maxHeaderBytes : ℕ)
    {chunks chunks' : List (List UInt8)} (h : chunks.flatten = chunks'.flatten) :
    split ms base maxHeaderBytes chunks = split ms base maxHeaderBytes chunks' := by
  rw [split, split, transforms_eq hregular, transforms_eq hregular, h]

end BoundedMimeSplitter

/-- Mailsplit on header lines up to an empty one, and then on a body under the given
boundaries. It reports a node without content, and body lines as they are. -/
def plainMailsplit (boundaries : List (List UInt8)) : Mailsplit Bool Unit (List UInt8) where
  state inBody := if inBody then mailsplitBodyState else mailsplitHeadState
  node _ := ()
  lineage _ := boundaries.map some
  multipart _ _ := false
  processLine inBody line final :=
    if inBody then .ok (true, some line)
    else if final || line = [LF] || line = [CR, LF] then .ok (true, some [])
    else .ok (false, none)

theorem plainMailsplit_regular (boundaries : List (List UInt8)) :
    (plainMailsplit boundaries).Regular
  | true => .inr rfl
  | false => .inl rfl

/-- A message cut inside both of its line breaks. -/
theorem BoundedMimeSplitter.split_chunk_invariant_sample :
    split (plainMailsplit []) false 64 [[0x41, CR], [LF, CR], [LF, 0x68, 0x69, CR], [LF]] =
      .ok [.node [], .body () false [0x68, 0x69, CR, LF]] := by
  have hcut : ([[0x41, CR], [LF, CR], [LF, 0x68, 0x69, CR], [LF]] : List (List UInt8)).flatten =
      [[0x41, CR, LF, CR, LF, 0x68, 0x69, CR, LF]].flatten := rfl
  rw [split_chunk_invariant (plainMailsplit_regular []) false 64 hcut]
  decide +kernel

end MailPortal.Mime
