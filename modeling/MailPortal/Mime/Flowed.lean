import MailPortal.Lib.Incremental
import MailPortal.Lib.Lines

/-!
# The Flowed-Text Decoder

`IncrementalFlowedDecoder` unfolds RFC 3676 text as it arrives, with no more than one
physical line of 8192 bytes in memory. A longer line is no flowed text and is passed
through.

`unfoldFlowed` is the unfolding without a stream: a recursion over the lines of the whole
input that looks one line ahead.

Main result:

* `decode_eq_unfoldFlowed`: the two agree, for either value of `delSp`, every input and
  every way of cutting it into chunks.

In the proof, `remaining` says what a pending flowed line adds to the unfolding of the lines
to come, and `spec` what a state makes of the bytes to come.
-/

namespace MailPortal.Mime

open Incremental Lines

variable {delSp : Bool} {line : Line} {b : UInt8}
variable {ending : Ending} {rest : List UInt8}

/-- The quote mark `>`. -/
def GT : UInt8 := 0x3e

/-- The hyphen. -/
def DASH : UInt8 := 0x2d

/-- `MAX_RFC_FLOWED_LINE_BYTES`. -/
def maxRfcFlowedLineBytes : ℕ := 8 * 1024

/-! ### Unfolding without a stream -/

/-- The number of quote marks a line starts with. -/
def quoteDepth (body : List UInt8) : ℕ := (body.takeWhile (· = GT)).length

/-- A line without its quote marks and one stuffed space. -/
def unstuffed (body : List UInt8) : List UInt8 :=
  match body.dropWhile (· = GT) with
  | [] => []
  | b :: rest => if b = SP then rest else b :: rest

/-- The signature line `-- `. -/
def isSignature (body : List UInt8) : Bool := unstuffed body = [DASH, DASH, SP]

/-- A line that the next one continues. -/
def isFlowed (body : List UInt8) : Bool :=
  !isSignature body && (unstuffed body).getLast? = some SP

/-- A line too long to be flowed text. -/
def isOverlong (line : Line) : Bool := maxRfcFlowedLineBytes < line.body.length

/-- Whether the first of the lines to come joins a flowed line of this depth. -/
def joinsNext (depth : ℕ) : List Line → Bool
  | [] => false
  | next :: _ => !isOverlong next && quoteDepth next.body = depth && !isSignature next.body

/-- Unfold a list of lines. `joined` says that the first one continues a paragraph. -/
def unfoldLines (delSp : Bool) : (joined : Bool) → List Line → List UInt8
  | _, [] => []
  | joined, line :: rest =>
      if isOverlong line then line.bytes ++ unfoldLines delSp false rest
      else
        (if joined then [] else List.replicate (quoteDepth line.body) GT) ++
          if isFlowed line.body then
            (unstuffed line.body).dropLast ++ (if delSp then [] else [SP]) ++
              if joinsNext (quoteDepth line.body) rest then unfoldLines delSp true rest
              else line.ending.bytes ++ unfoldLines delSp false rest
          else unstuffed line.body ++ line.ending.bytes ++ unfoldLines delSp false rest

/-- The lines of an input; a last line that is empty is none. -/
def textLines (input : List UInt8) : List Line := (split input).filter (· ≠ ⟨[], .none⟩)

/-- The whole-input unfolding. -/
def unfoldFlowed (delSp : Bool) (input : List UInt8) : List UInt8 :=
  unfoldLines delSp false (textLines input)

/-! ### The decoder -/

/-- A flowed line that waits for the next one. -/
structure PendingFlowedLine where
  lineEnding : List UInt8
  quoteDepth : ℕ

/-- The state of the decoder: its fields, and what it has written. The buffer of the output
is the one for overlong lines. -/
structure IncrementalFlowedDecoder where
  delSp : Bool
  line : List UInt8
  overlongLine : Bool
  pendingCarriageReturn : Bool
  pendingFlowed : Option PendingFlowedLine
  output : Output UInt8

variable {d : IncrementalFlowedDecoder}

namespace IncrementalFlowedDecoder

def new (delSp : Bool) : IncrementalFlowedDecoder where
  delSp := delSp
  line := []
  overlongLine := false
  pendingCarriageReturn := false
  pendingFlowed := none
  output := .empty

/-- `#pushWithBackpressure`. -/
def push (d : IncrementalFlowedDecoder) (bytes : List UInt8) : IncrementalFlowedDecoder :=
  { d with output := d.output.push bytes }

/-- `#pushQuotePrefix`, which writes its prefix in slices. -/
def pushQuotePrefix (d : IncrementalFlowedDecoder) (depth : ℕ) : IncrementalFlowedDecoder :=
  d.push (List.replicate depth GT)

/-- `#startLine`. -/
def startLine (d : IncrementalFlowedDecoder) (quoteDepth : ℕ) (signature : Bool) :
    IncrementalFlowedDecoder :=
  let previous := d.pendingFlowed
  let d := { d with pendingFlowed := none }
  match previous with
  | none => d.pushQuotePrefix quoteDepth
  | some previous =>
      let joinsPrevious := previous.quoteDepth = quoteDepth && !signature
      let d := if d.delSp then d else d.push [SP]
      if joinsPrevious then d else (d.push previous.lineEnding).pushQuotePrefix quoteDepth

/-- The loop that counts the quote marks of a line. -/
def countQuotes : List UInt8 → ℕ
  | [] => 0
  | b :: rest => if b = GT then countQuotes rest + 1 else 0

/-- `#normalizedLine`: the content of the buffered line, its quote depth, and whether it is
the signature line. -/
def normalizedLine (d : IncrementalFlowedDecoder) : List UInt8 × ℕ × Bool :=
  let quoteDepth := countQuotes d.line
  let contentOffset := if d.line[quoteDepth]? = some SP then quoteDepth + 1 else quoteDepth
  let content := d.line.drop contentOffset
  let signature := content.length = 3 && content[0]? = some DASH && content[1]? = some DASH &&
    content[2]? = some SP
  (content, quoteDepth, signature)

/-- `#flushPendingFlowedAtBodyEnd`. -/
def flushPendingFlowedAtBodyEnd (d : IncrementalFlowedDecoder) : IncrementalFlowedDecoder :=
  match d.pendingFlowed with
  | none => d
  | some pending =>
      let d := { d with pendingFlowed := none }
      let d := if d.delSp then d else d.push [SP]
      d.push pending.lineEnding

/-- `#beginOverlongLine`. -/
def beginOverlongLine (d : IncrementalFlowedDecoder) : IncrementalFlowedDecoder :=
  let d := d.flushPendingFlowedAtBodyEnd
  { d.push d.line with line := [], overlongLine := true }

/-- `#flushOverlongOutput`. -/
def flushOverlongOutput (d : IncrementalFlowedDecoder) : IncrementalFlowedDecoder :=
  { d with output := d.output.flush }

/-- `#appendOverlongByte`, into a buffer of 64 KiB that is handed on when it is full. -/
def appendOverlongByte (d : IncrementalFlowedDecoder) (byte : UInt8) : IncrementalFlowedDecoder :=
  let d := { d with output := { d.output with held := d.output.held ++ [byte] } }
  if d.output.held.length = 64 * 1024 then d.flushOverlongOutput else d

/-- `#appendByte`. -/
def appendByte (d : IncrementalFlowedDecoder) (byte : UInt8) : IncrementalFlowedDecoder :=
  if d.overlongLine then d.appendOverlongByte byte
  else if d.line.length = maxRfcFlowedLineBytes then d.beginOverlongLine.appendOverlongByte byte
  else { d with line := d.line ++ [byte] }

/-- `#finishLine`. -/
def finishLine (d : IncrementalFlowedDecoder) (lineEnding : List UInt8) :
    IncrementalFlowedDecoder :=
  if d.overlongLine then
    { d.flushOverlongOutput.push lineEnding with overlongLine := false }
  else
    let (content, quoteDepth, signature) := d.normalizedLine
    let d := d.startLine quoteDepth signature
    let flowed := !signature && 0 < content.length && content[content.length - 1]? = some SP
    let d := if flowed then
        { d.push (content.take (content.length - 1)) with
          pendingFlowed := some ⟨lineEnding, quoteDepth⟩ }
      else (d.push content).push lineEnding
    { d with line := [] }

/-- A byte, with no carriage return pending. -/
def readPlain (d : IncrementalFlowedDecoder) (byte : UInt8) : IncrementalFlowedDecoder :=
  if byte = CR then { d with pendingCarriageReturn := true }
  else if byte = LF then d.finishLine [LF]
  else d.appendByte byte

/-- One turn of the loop of `_transform`. -/
def read (d : IncrementalFlowedDecoder) (byte : UInt8) : IncrementalFlowedDecoder :=
  if d.pendingCarriageReturn then
    let d := { d with pendingCarriageReturn := false }
    if byte = LF then d.finishLine [CR, LF] else (d.appendByte CR).readPlain byte
  else d.readPlain byte

/-- `_transform`: nothing happens at the end of a chunk. -/
def machine : Machine IncrementalFlowedDecoder UInt8 where
  step := read
  endChunk := id

/-- `_flush`. -/
def flush (d : IncrementalFlowedDecoder) : IncrementalFlowedDecoder :=
  let d := if d.pendingCarriageReturn then
      { d.appendByte CR with pendingCarriageReturn := false }
    else d
  let d := if d.overlongLine then { d.flushOverlongOutput with overlongLine := false }
    else if 0 < d.line.length then d.finishLine [] else d
  d.flushPendingFlowedAtBodyEnd

/-- The whole output for an input that arrives in chunks. -/
def decode (delSp : Bool) (chunks : List (List UInt8)) : List UInt8 :=
  (machine.run (new delSp) chunks).flush.output.text

/-! ### Reading a line -/

/-- The loop counts what the line starts with. -/
theorem countQuotes_eq (body : List UInt8) : countQuotes body = quoteDepth body := by
  induction body with
  | nil => rfl
  | cons b rest ih =>
      by_cases hb : b = GT
      · simp [countQuotes, quoteDepth, hb, ih]
      · simp [countQuotes, quoteDepth, hb]

/-- What follows the quote marks. -/
theorem drop_quoteDepth (body : List UInt8) :
    body.drop (quoteDepth body) = body.dropWhile (· = GT) := by
  induction body with
  | nil => rfl
  | cons b rest ih =>
      by_cases hb : b = GT
      · simpa [quoteDepth, hb] using ih
      · simp [quoteDepth, hb]

/-- The content by offset is the content by pattern. -/
theorem drop_contentOffset (body : List UInt8) :
    body.drop (if body[quoteDepth body]? = some SP then quoteDepth body + 1 else quoteDepth body) =
      unstuffed body := by
  have hdrop := drop_quoteDepth body
  have hhead : body[quoteDepth body]? = (body.drop (quoteDepth body)).head? := by
    rw [List.head?_drop]
  rw [hhead, hdrop, unstuffed]
  cases h : body.dropWhile (· = GT) with
  | nil => simp [hdrop, h]
  | cons b rest =>
      by_cases hb : b = SP
      · rw [List.head?_cons, if_pos (congrArg some hb), ← List.drop_drop, hdrop, h]
        simp [hb]
      · rw [List.head?_cons, if_neg (by simpa using hb), hdrop, h]
        simp [hb]

/-- The test of the signature line by its bytes. -/
theorem signature_eq (content : List UInt8) :
    (content.length = 3 && content[0]? = some DASH && content[1]? = some DASH &&
      content[2]? = some SP : Bool) = decide (content = [DASH, DASH, SP]) := by
  rcases content with _ | ⟨a, _ | ⟨b, _ | ⟨c, _ | ⟨e, rest⟩⟩⟩⟩ <;> simp [Bool.and_assoc]

theorem normalizedLine_eq (d : IncrementalFlowedDecoder) :
    d.normalizedLine = (unstuffed d.line, quoteDepth d.line, isSignature d.line) := by
  simp only [normalizedLine, countQuotes_eq, drop_contentOffset, signature_eq, isSignature]

/-- The test of a flowed line by its last byte. -/
theorem flowed_eq (body : List UInt8) :
    (!isSignature body && 0 < (unstuffed body).length &&
      (unstuffed body)[(unstuffed body).length - 1]? = some SP : Bool) = isFlowed body := by
  rw [isFlowed, List.getLast?_eq_getElem?]
  cases h : unstuffed body with
  | nil => simp
  | cons b rest => simp

/-! ### What is still to come -/

/-- What a pending flowed line and the lines to come add to the output. -/
def remaining (delSp : Bool) : Option PendingFlowedLine → List Line → List UInt8
  | none, lines => unfoldLines delSp false lines
  | some pending, lines =>
      (if delSp then [] else [SP]) ++
        if joinsNext pending.quoteDepth lines then unfoldLines delSp true lines
        else pending.lineEnding ++ unfoldLines delSp false lines

/-- What a line adds to the output before its content. -/
def opening (delSp : Bool) (pending : Option PendingFlowedLine) (quoteDepth : ℕ)
    (signature : Bool) : List UInt8 :=
  match pending with
  | none => List.replicate quoteDepth GT
  | some pending =>
      (if delSp then [] else [SP]) ++
        if pending.quoteDepth = quoteDepth && !signature then []
        else pending.lineEnding ++ List.replicate quoteDepth GT

/-- What a line adds from its content on. -/
def content (delSp : Bool) (line : Line) (lines : List Line) : List UInt8 :=
  if isFlowed line.body then
    (unstuffed line.body).dropLast ++
      remaining delSp (some ⟨line.ending.bytes, quoteDepth line.body⟩) lines
  else unstuffed line.body ++ line.ending.bytes ++ unfoldLines delSp false lines

theorem unfoldLines_cons {joined : Bool} (h : isOverlong line = false) (lines : List Line) :
    unfoldLines delSp joined (line :: lines) =
      (if joined then [] else List.replicate (quoteDepth line.body) GT) ++
        content delSp line lines := by
  rw [unfoldLines, h, if_neg (by simp), content]
  congr 1
  split
  · simp only [remaining, List.append_assoc]
  · rfl

/-- **A line of flowed text** is its opening and its content. -/
theorem remaining_cons (h : isOverlong line = false) (pending : Option PendingFlowedLine)
    (lines : List Line) :
    remaining delSp pending (line :: lines) =
      opening delSp pending (quoteDepth line.body) (isSignature line.body) ++
        content delSp line lines := by
  cases pending with
  | none => rw [remaining, unfoldLines_cons h, opening, if_neg (by simp)]
  | some pending =>
      have hjoins : joinsNext pending.quoteDepth (line :: lines) =
          (pending.quoteDepth = quoteDepth line.body && !isSignature line.body : Bool) := by
        simp [joinsNext, h, eq_comm]
      rw [remaining, opening, hjoins, List.append_assoc, unfoldLines_cons h, unfoldLines_cons h]
      congr 1
      split <;> simp

/-- An overlong line closes what is pending and passes unchanged. -/
theorem remaining_overlong (h : isOverlong line = true) (pending : Option PendingFlowedLine)
    (lines : List Line) :
    remaining delSp pending (line :: lines) =
      remaining delSp pending [] ++ line.bytes ++ unfoldLines delSp false lines := by
  cases pending with
  | none => simp [remaining, unfoldLines, h]
  | some pending => simp [remaining, unfoldLines, joinsNext, h]

/-! ### What the operations write -/

/-- `startLine` consumes the pending line and writes the opening. -/
theorem startLine_eq (h : d.output.held = []) (quoteDepth : ℕ) (signature : Bool) :
    d.startLine quoteDepth signature =
      { d with
        pendingFlowed := none
        output :=
          ⟨d.output.pushed ++ opening d.delSp d.pendingFlowed quoteDepth signature, []⟩ } := by
  obtain ⟨delSp, line, overlong, cr, pending, pushed, held⟩ := d
  obtain rfl : held = [] := h
  cases pending with
  | none => rfl
  | some pending =>
      cases delSp <;> simp only [startLine, opening] <;> split <;>
        simp [push, pushQuotePrefix, Output.push]

/-- `flushPendingFlowedAtBodyEnd` writes what remains when no line comes. -/
theorem flushPendingFlowedAtBodyEnd_eq (h : d.output.held = []) :
    d.flushPendingFlowedAtBodyEnd =
      { d with
        pendingFlowed := none
        output := ⟨d.output.pushed ++ remaining d.delSp d.pendingFlowed [], []⟩ } := by
  obtain ⟨delSp, line, overlong, cr, pending, pushed, held⟩ := d
  obtain rfl : held = [] := h
  cases pending with
  | none => simp [flushPendingFlowedAtBodyEnd, remaining, unfoldLines]
  | some pending =>
      cases delSp <;>
        simp [flushPendingFlowedAtBodyEnd, remaining, joinsNext, unfoldLines, push, Output.push]

/-- **A finished line** moves one line from what is to come to what is written. -/
theorem finishLine_spec (hheld : d.output.held = []) (hover : d.overlongLine = false)
    (hline : isOverlong ⟨d.line, .none⟩ = false) (ending : Ending) :
    ∃ pending output, output.held = [] ∧
      d.finishLine ending.bytes = { d with line := [], pendingFlowed := pending, output } ∧
      ∀ lines, output.text ++ remaining d.delSp pending lines =
        d.output.text ++ remaining d.delSp d.pendingFlowed (⟨d.line, ending⟩ :: lines) := by
  have htext : d.output.text = d.output.pushed := by simp [Output.text, hheld]
  have hrem : ∀ lines, remaining d.delSp d.pendingFlowed (⟨d.line, ending⟩ :: lines) =
      opening d.delSp d.pendingFlowed (quoteDepth d.line) (isSignature d.line) ++
        content d.delSp ⟨d.line, ending⟩ lines :=
    fun lines => remaining_cons (show isOverlong ⟨d.line, ending⟩ = false from hline) _ lines
  simp only [finishLine, hover, normalizedLine_eq, startLine_eq hheld, flowed_eq]
  cases hflowed : isFlowed d.line with
  | true =>
      refine ⟨_, _, ?_, rfl, fun lines => ?_⟩
      · rfl
      · rw [hrem, htext, content, if_pos hflowed]
        simp [push, Output.push, Output.text, List.dropLast_eq_take]
  | false =>
      refine ⟨_, _, ?_, rfl, fun lines => ?_⟩
      · rfl
      · rw [hrem, htext, content]
        simp [hflowed, push, Output.push, Output.text, remaining]

/-- The output an overlong byte leaves: one more byte of text. -/
theorem appendOverlongByte_spec (d : IncrementalFlowedDecoder) (byte : UInt8) :
    ∃ output, d.appendOverlongByte byte = { d with output := output } ∧
      output.text = d.output.text ++ [byte] := by
  rw [appendOverlongByte]
  split
  · exact ⟨_, rfl, by simp [Output.text, Output.flush]⟩
  · exact ⟨_, rfl, by simp [Output.text]⟩

/-! ### The invariant and the specification of a state -/

/-- What holds of the buffers. -/
structure Buffers (d : IncrementalFlowedDecoder) : Prop where
  no_lf : ∀ b ∈ d.line, b ≠ LF
  bounded : d.line.length ≤ maxRfcFlowedLineBytes
  held : d.overlongLine = false → d.output.held = []
  overlong : d.overlongLine = true → d.pendingFlowed = none ∧ d.line = []

/-- What holds between two bytes: a carriage return at the end of the line is still pending. -/
structure Inv (d : IncrementalFlowedDecoder) : Prop extends Buffers d where
  settled : d.pendingCarriageReturn = false → d.line.getLast? ≠ some CR

/-- The bytes a pending carriage return stands for. -/
def pendingBytes (d : IncrementalFlowedDecoder) : List UInt8 :=
  if d.pendingCarriageReturn then [CR] else []

/-- What comes of an input whose first line is being passed through. -/
def afterOverlong (delSp : Bool) (input : List UInt8) : List UInt8 :=
  match split input with
  | [] => []
  | line :: lines => line.bytes ++ unfoldLines delSp false (lines.filter (· ≠ ⟨[], .none⟩))

/-- What a state makes of bytes to come, the pending carriage return among them. -/
def specPlain (d : IncrementalFlowedDecoder) (input : List UInt8) : List UInt8 :=
  d.output.text ++
    if d.overlongLine then afterOverlong d.delSp input
    else remaining d.delSp d.pendingFlowed (textLines (d.line ++ input))

/-- What a state makes of the bytes to come. -/
def spec (d : IncrementalFlowedDecoder) (rest : List UInt8) : List UInt8 :=
  d.specPlain (d.pendingBytes ++ rest)

theorem textLines_cons {input : List UInt8} {lines : List Line} (h : split input = line :: lines)
    (hline : line ≠ ⟨[], .none⟩) : textLines input = line :: lines.filter (· ≠ ⟨[], .none⟩) := by
  rw [textLines, h, List.filter_cons_of_pos (by simpa using hline)]

/-- A byte of a line that is passed through. -/
theorem afterOverlong_cons (delSp : Bool) (hb : b ≠ LF) (rest : List UInt8) :
    afterOverlong delSp (b :: rest) = b :: afterOverlong delSp rest := by
  obtain ⟨line, lines, h⟩ := exists_split rest
  simp only [afterOverlong, split_cons hb h, h, Line.bytes_cons, List.cons_append]

/-- A line break ends the passing through. -/
theorem afterOverlong_ending (delSp : Bool)
    (h : split (ending.bytes ++ rest) = ⟨[], ending⟩ :: split rest) :
    afterOverlong delSp (ending.bytes ++ rest) = ending.bytes ++ unfoldFlowed delSp rest := by
  simp only [afterOverlong, h, Line.bytes, List.nil_append, unfoldFlowed, textLines]

/-- Finishing a line leaves the buffers in order, the line's empty. -/
theorem finishLine_buffers (h : d.Buffers) (ending : Ending) :
    (d.finishLine ending.bytes).Buffers ∧ (d.finishLine ending.bytes).line = [] ∧
      (d.finishLine ending.bytes).pendingCarriageReturn = d.pendingCarriageReturn := by
  cases hover : d.overlongLine with
  | true =>
      obtain ⟨hpending, hline⟩ := h.overlong hover
      simp only [finishLine, hover, if_true]
      exact ⟨⟨h.no_lf, h.bounded, fun _ => rfl, nofun⟩, hline, rfl⟩
  | false =>
      obtain ⟨pending, output, hheld, heq, -⟩ :=
        finishLine_spec (h.held hover) hover (by simpa [isOverlong] using h.bounded) ending
      rw [heq]
      exact ⟨⟨nofun, Nat.zero_le _, fun _ => hheld, fun h => by simp [hover] at h⟩, rfl, rfl⟩

/-- A line break finishes the buffered line. -/
theorem specPlain_finishLine (h : d.Buffers) (hending : ending ≠ .none)
    (hsplit : ∀ line : List UInt8, line = d.line ∨ line = [] →
      split (line ++ (ending.bytes ++ rest)) = ⟨line, ending⟩ :: split rest) :
    (d.finishLine ending.bytes).specPlain rest = d.specPlain (ending.bytes ++ rest) := by
  cases hover : d.overlongLine with
  | true =>
      obtain ⟨hpending, hline⟩ := h.overlong hover
      simp [specPlain, hover, afterOverlong_ending d.delSp (hsplit [] (.inr rfl)), finishLine,
        hpending, hline, flushOverlongOutput, push, remaining, unfoldFlowed]
  | false =>
      obtain ⟨pending, output, hheld, heq, hspec⟩ :=
        finishLine_spec (h.held hover) hover (by simpa [isOverlong] using h.bounded) ending
      rw [heq]
      simp only [specPlain, hover]
      rw [textLines_cons (hsplit d.line (.inl rfl)) (by simp [hending])]
      exact hspec _

/-- Beginning an overlong line closes what is pending and writes the buffered bytes. -/
theorem beginOverlongLine_eq (h : d.output.held = []) :
    d.beginOverlongLine =
      { d with
        line := [], overlongLine := true, pendingFlowed := none
        output := ⟨d.output.pushed ++ remaining d.delSp d.pendingFlowed [] ++ d.line, []⟩ } := by
  rw [beginOverlongLine, flushPendingFlowedAtBodyEnd_eq h]
  rfl

/-- The byte that makes a line too long. -/
theorem overlongByte_spec (h : d.Buffers) (hover : d.overlongLine = false)
    (hfull : d.line.length = maxRfcFlowedLineBytes) (hb : b ≠ LF) :
    ∃ output, d.beginOverlongLine.appendOverlongByte b =
        { d with line := [], overlongLine := true, pendingFlowed := none, output } ∧
      ∀ rest, (b = CR → rest.head? ≠ some LF) →
        output.text ++ afterOverlong d.delSp rest = d.specPlain (b :: rest) := by
  have hheld := h.held hover
  obtain ⟨output, heq, htext⟩ := d.beginOverlongLine.appendOverlongByte_spec b
  rw [beginOverlongLine_eq hheld] at heq htext
  rw [beginOverlongLine_eq hheld, heq]
  refine ⟨output, rfl, fun rest hmeet => ?_⟩
  obtain ⟨line, lines, hrest⟩ := exists_split rest
  have hcons : split (b :: rest) = ⟨b :: line.body, line.ending⟩ :: lines := by
    rw [split_cons hb hrest, Line.cons, if_neg]
    rintro ⟨hcr, rfl⟩
    exact hmeet hcr (eq_lf_of_split hrest)
  have hsplit := split_append hcons h.no_lf fun _ => by simpa using hb
  have hlong : isOverlong ⟨d.line ++ b :: line.body, line.ending⟩ = true := by
    simp [isOverlong, hfull]
  simp only [specPlain, hover]
  rw [textLines_cons hsplit (by simp), remaining_overlong hlong, htext]
  simp [Output.text, hheld, afterOverlong, hrest, Line.bytes]

/-- **A byte of a line** keeps the buffers in order and does not change what will come out,
unless it is a carriage return that belongs to a line break. -/
theorem appendByte_spec (h : d.Buffers) (hb : b ≠ LF) :
    (d.appendByte b).Buffers ∧
      (d.appendByte b).pendingCarriageReturn = d.pendingCarriageReturn ∧
      ((d.appendByte b).line = [] ∨ (d.appendByte b).line = d.line ++ [b]) ∧
      ∀ rest, (b = CR → rest.head? ≠ some LF) →
        (d.appendByte b).specPlain rest = d.specPlain (b :: rest) := by
  cases hover : d.overlongLine with
  | true =>
      obtain ⟨hpending, hline⟩ := h.overlong hover
      obtain ⟨output, heq, htext⟩ := d.appendOverlongByte_spec b
      simp only [appendByte, hover, if_true, heq]
      refine ⟨⟨h.no_lf, h.bounded, ?_, fun _ => ⟨hpending, hline⟩⟩, trivial, .inl hline,
        fun rest _ => ?_⟩
      · intro hfalse
        cases hfalse
      · simp [specPlain, hover, htext, afterOverlong_cons d.delSp hb]
  | false =>
      simp only [appendByte, hover, Bool.false_eq_true, if_false]
      split
      · next hfull =>
        obtain ⟨output, heq, hspec⟩ := overlongByte_spec h hover hfull hb
        rw [heq]
        refine ⟨⟨?_, Nat.zero_le _, ?_, fun _ => ⟨rfl, rfl⟩⟩, rfl, .inl rfl, hspec⟩
        · intro c hc
          cases hc
        · intro hfalse
          cases hfalse
      · next hroom =>
        have hlt : d.line.length < maxRfcFlowedLineBytes := Nat.lt_of_le_of_ne h.bounded hroom
        refine ⟨⟨?_, ?_, fun _ => h.held hover, ?_⟩, rfl, .inr rfl, fun rest _ => ?_⟩
        · intro c hc
          rcases List.mem_append.mp hc with hc | hc
          · exact h.no_lf c hc
          · exact List.mem_singleton.mp hc ▸ hb
        · simpa using Nat.succ_le_of_lt hlt
        · intro htrue
          cases htrue
        · simp [specPlain, hover]

/-! ### A byte and the end -/

/-- Appending a byte does not look at the pending carriage return. -/
theorem appendByte_settle (d : IncrementalFlowedDecoder) (b : UInt8) :
    ({ d with pendingCarriageReturn := false } : IncrementalFlowedDecoder).appendByte b =
      { d.appendByte b with pendingCarriageReturn := false } := by
  have hoverlong : ∀ d : IncrementalFlowedDecoder,
      ({ d with pendingCarriageReturn := false } : IncrementalFlowedDecoder).appendOverlongByte b =
        { d.appendOverlongByte b with pendingCarriageReturn := false } := by
    intro d
    simp only [appendOverlongByte]
    split <;> rfl
  have hbegin :
      ({ d with pendingCarriageReturn := false } : IncrementalFlowedDecoder).beginOverlongLine =
        { d.beginOverlongLine with pendingCarriageReturn := false } := by
    obtain ⟨delSp, line, overlong, cr, pending, output⟩ := d
    cases pending with
    | none => rfl
    | some pending => cases delSp <;> rfl
  simp only [appendByte, hbegin, hoverlong]
  split
  · rfl
  · split <;> rfl

/-- A byte that meets no pending carriage return. -/
theorem readPlain_spec (h : d.Buffers) (hcr : d.pendingCarriageReturn = false)
    (hmeet : b = LF → d.line.getLast? ≠ some CR) :
    (d.readPlain b).Inv ∧ ∀ rest, (d.readPlain b).spec rest = d.specPlain (b :: rest) := by
  rw [readPlain]
  split
  · next hb =>
    subst hb
    exact ⟨⟨⟨h.no_lf, h.bounded, h.held, h.overlong⟩, nofun⟩, fun _ => rfl⟩
  · next hbcr =>
    split
    · next hb =>
      obtain ⟨hbuf, hline, hpcr⟩ := finishLine_buffers h .lf
      refine ⟨⟨hbuf, fun _ hlast => by cases hline ▸ hlast⟩, fun rest => ?_⟩
      rw [spec, pendingBytes, show (d.finishLine [LF]).pendingCarriageReturn = false from
        hpcr.trans hcr, if_neg nofun, hb]
      refine specPlain_finishLine h (show Ending.lf ≠ .none from nofun) ?_
      rintro line (rfl | rfl)
      · exact split_append_lf h.no_lf (hmeet hb) rest
      · exact split_lf rest
    · next hb =>
      obtain ⟨hbuf, hpcr, hline, hspec⟩ := appendByte_spec h hb
      rw [hcr] at hpcr
      refine ⟨⟨hbuf, fun _ => ?_⟩, fun rest => ?_⟩
      · rcases hline with hline | hline <;> simp [hline, hbcr]
      · rw [spec, pendingBytes, hpcr, if_neg nofun]
        exact hspec rest fun h => absurd h hbcr

/-- **One byte.** It keeps the invariant and does not change what will come out. -/
theorem read_spec (h : d.Inv) (b : UInt8) :
    (d.read b).Inv ∧ ∀ rest, (d.read b).spec rest = d.spec (b :: rest) := by
  rw [read]
  cases hcr : d.pendingCarriageReturn with
  | false =>
      simp only [Bool.false_eq_true, if_false, spec, pendingBytes, hcr, List.nil_append]
      exact readPlain_spec h.toBuffers hcr fun _ => h.settled hcr
  | true =>
      let d₀ : IncrementalFlowedDecoder := { d with pendingCarriageReturn := false }
      have h₀ : d₀.Buffers := ⟨h.no_lf, h.bounded, h.held, h.overlong⟩
      have hspec₀ : ∀ input, d₀.specPlain input = d.specPlain input := fun _ => rfl
      simp only [if_true, spec, pendingBytes, hcr, List.singleton_append, ← hspec₀]
      split
      · next hb =>
        obtain ⟨hbuf, hline, hpcr⟩ := finishLine_buffers h₀ .crlf
        refine ⟨⟨hbuf, fun _ hlast => by cases hline ▸ hlast⟩, fun rest => ?_⟩
        rw [show (d₀.finishLine [CR, LF]).pendingCarriageReturn = false from hpcr, if_neg nofun, hb]
        refine specPlain_finishLine h₀ (show Ending.crlf ≠ .none from nofun) ?_
        rintro line (rfl | rfl)
        · exact split_append_crlf h.no_lf rest
        · exact @split_append_crlf [] nofun rest
      · next hb =>
        obtain ⟨hbuf, hpcr, -, hspec⟩ := appendByte_spec h₀ (b := CR) (by decide)
        obtain ⟨hinv, hread⟩ := readPlain_spec hbuf hpcr (b := b) fun h => absurd h hb
        refine ⟨hinv, fun rest => ?_⟩
        calc ((d₀.appendByte CR).readPlain b).spec rest
            = (d₀.appendByte CR).specPlain (b :: rest) := hread rest
          _ = d₀.specPlain (CR :: b :: rest) := hspec _ fun _ => by simpa using hb
          _ = _ := by simp

/-- The decoder follows its specification. -/
theorem machine_follows : Follows machine Inv spec where
  step d b h := d.read_spec h b
  endChunk _ h := ⟨h, fun _ => rfl⟩

/-- The end of the input, with no carriage return pending. -/
theorem flush_plain (h : d.Buffers) (hcr : d.pendingCarriageReturn = false) :
    d.flush.output.text = d.specPlain [] := by
  simp only [flush, hcr, Bool.false_eq_true, if_false]
  cases hover : d.overlongLine with
  | true =>
      obtain ⟨hpending, -⟩ := h.overlong hover
      have hnone : afterOverlong d.delSp [] = [] := rfl
      simp [flushOverlongOutput, flushPendingFlowedAtBodyEnd, hpending, specPlain, hover, hnone]
  | false =>
      have hheld := h.held hover
      have hends : ∀ d' : IncrementalFlowedDecoder, d'.output.held = [] →
          d'.flushPendingFlowedAtBodyEnd.output.text =
            d'.output.text ++ remaining d'.delSp d'.pendingFlowed [] := by
        intro d' hheld'
        rw [flushPendingFlowedAtBodyEnd_eq hheld']
        simp [Output.text, hheld']
      simp only [Bool.false_eq_true, if_false, specPlain, hover, List.append_nil]
      split
      · next hline =>
        have hne : (⟨d.line, .none⟩ : Line) ≠ ⟨[], .none⟩ := by
          simpa using List.length_pos_iff.mp hline
        obtain ⟨pending, output, hheld', heq, hspec⟩ :=
          finishLine_spec hheld hover (by simpa [isOverlong] using h.bounded) .none
        have hfinish : d.finishLine [] = { d with line := [], pendingFlowed := pending, output } :=
          heq
        rw [hfinish, hends _ hheld', textLines_cons (split_of_no_lf h.no_lf) hne]
        exact hspec []
      · next hline =>
        have hnil : d.line = [] := by simpa using hline
        have hnone : textLines [] = [] := rfl
        rw [hends d hheld, hnil, hnone]

/-- The flush writes what the specification says of the empty rest. -/
theorem flush_spec (h : d.Inv) : d.flush.output.text = d.spec [] := by
  cases hcr : d.pendingCarriageReturn with
  | false =>
      rw [spec, pendingBytes, hcr, if_neg nofun]
      exact flush_plain h.toBuffers hcr
  | true =>
      let d₀ : IncrementalFlowedDecoder := { d with pendingCarriageReturn := false }
      have h₀ : d₀.Buffers := ⟨h.no_lf, h.bounded, h.held, h.overlong⟩
      obtain ⟨hbuf, hpcr, -, hspec⟩ := appendByte_spec h₀ (b := CR) (by decide)
      have hflush : d.flush = (d₀.appendByte CR).flush := by
        have happend : d₀.appendByte CR = { d.appendByte CR with pendingCarriageReturn := false } :=
          appendByte_settle d CR
        simp only [flush, hcr, if_true, happend, Bool.false_eq_true, if_false]
      rw [hflush, flush_plain hbuf hpcr, hspec [] fun _ => nofun, spec, pendingBytes, hcr,
        if_pos rfl]
      rfl

theorem new_inv (delSp : Bool) : (new delSp).Inv :=
  ⟨⟨nofun, Nat.zero_le _, fun _ => rfl, nofun⟩, fun _ => nofun⟩

/-- **The flowed-text decoder is the whole-input unfolding**, whatever the cuts. -/
theorem decode_eq_unfoldFlowed (delSp : Bool) (chunks : List (List UInt8)) :
    decode delSp chunks = unfoldFlowed delSp chunks.flatten := by
  obtain ⟨hinv, hrun⟩ := machine_follows.run (new_inv delSp) chunks
  calc decode delSp chunks
      = (machine.run (new delSp) chunks).spec [] := flush_spec hinv
    _ = (new delSp).spec (chunks.flatten ++ []) := hrun []
    _ = unfoldFlowed delSp chunks.flatten := by
        rw [List.append_nil]
        rfl

end IncrementalFlowedDecoder

end MailPortal.Mime
