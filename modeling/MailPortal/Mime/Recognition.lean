import MailPortal.Mime.LineScan

/-!
# Recognising Delimiter Lines

Which body lines the splitter takes for a delimiter, against the grammar `IsDelimiter`.

Main result: `recognition_exact`. For a line and the way it ends the splitter agrees with
the grammar exactly when `Recognisable` holds. It fails

* on lines that begin with a carriage return and one dash, and go on like a delimiter;
* on a last line without line break whose delimiter is followed by a carriage return;
* on delimiters whose every reading is obstructed: the padding begins with a blank by which
  the boundary extends to another active one, or the boundary that is closed has its own
  last dashes counted as closing dashes of a shorter one.
-/

namespace MailPortal.Mime

open Lines Failure

variable {line : List UInt8}
variable {ending : Ending}

/-- The bytes of a line break before its line feed. -/
def heldReturn (ending : Ending) : List UInt8 := if ending = .crlf then [CR] else []

/-- **The lines that are read as the grammar says**, for the way they end. -/
structure Recognisable (boundaries : List (List UInt8)) (line : List UInt8) (ending : Ending) :
    Prop where
  /-- The line is not a carriage return and one dash in front of a readable text. -/
  lead : ∀ text, line = CR :: HYPHEN :: text → ¬ ReadsClearly boundaries text
  /-- At the end of the input, no carriage return follows a readable text. -/
  trail : ending = .none → ∀ x text, Lead x → line = x :: HYPHEN :: (text ++ [CR]) →
    ¬ ReadsClearly boundaries text
  /-- A delimiter has a reading that is not obstructed. -/
  clear : IsDelimiter boundaries line →
    ∃ text, line = HYPHEN :: HYPHEN :: text ∧ ReadsClearly boundaries text

namespace BoundedMimeSplitter

variable {M Node Data : Type} [DecidableEq Node] {ms : Mailsplit M Node Data}
  {boundaries : List (List UInt8)} {s t : BoundedMimeSplitter M Node Data}

/-- The boundary whose delimiter the scanner takes the line for when the line ends: at the
line feed (`finishCandidateLine`), or at the end of the input (`flushStream`). -/
def boundaryFound (t : BoundedMimeSplitter M Node Data) (ending : Ending) : Option (List UInt8) :=
  if t.streamingBodyLine then none
  else if ending = .none && !(0 < t.candidate.length || t.candidateBoundary.isSome) then none
  else t.lineBoundary.map BoundaryMatch.boundary

/-- The boundary whose delimiter a line is taken for, when its bytes arrive in chunks. -/
def delimiterFound (ms : Mailsplit M Node Data) (s : BoundedMimeSplitter M Node Data)
    (chunks : List (List UInt8)) (ending : Ending) : Option (List UInt8) :=
  match chunks.foldlM (transform ms) s with
  | .ok t => t.boundaryFound ending
  | .error _ => none

theorem Held.heldLine (h : Held ms boundaries s t line) : line = [] ∨ HeldLine boundaries line := by
  rcases h.place with ⟨-, -, -, rfl | ⟨x, hx, rfl | rfl⟩⟩ | ⟨x, text, hx, rfl, htrack⟩
  · exact .inl rfl
  · exact .inr ⟨x, hx, .inl rfl⟩
  · exact .inr ⟨x, hx, .inr ⟨[], rfl, .inl rfl⟩⟩
  · exact .inr ⟨x, hx, .inr ⟨text, rfl, htrack.alive⟩⟩

/-- A line that is held back is found when its text is a stem. -/
theorem Held.found_iff (h : Held ms boundaries s t line) (hcr : ∀ b ∈ boundaries, CR ∉ b) :
    t.matchedCandidateBoundary.isSome = true ↔ Found boundaries line := by
  constructor
  · intro hmatched
    obtain ⟨x, text, hx, rfl, -, hstem⟩ := h.stem hmatched
    exact ⟨x, text, [], [], ⟨hx, ⟨hstem, nofun, nofun⟩, unblank_nil, by simp⟩, .inl rfl⟩
  · rintro ⟨x, u, pad, rest, hline, hrest⟩
    have hheld : HeldLine boundaries line :=
      h.heldLine.resolve_left fun hnil => nomatch hnil.symm.trans hline.eq
    obtain ⟨rfl, hhead⟩ := hheld.not_padded hcr hline
    have heq : line = x :: HYPHEN :: u := by
      rcases hrest with rfl | rfl
      · simpa using hline.eq
      · exact absurd rfl hhead
    have hu := stem_ne_nil h.active.nonempty hline.padded.stem
    rcases h.place with ⟨-, -, -, rfl | ⟨x', -, rfl | rfl⟩⟩ | ⟨x', text, -, hlong, htrack⟩
    · cases heq
    · cases (List.cons.inj heq).2
    · exact absurd (List.cons.inj (List.cons.inj heq).2).2.symm hu
    · rw [htrack.matched, (List.cons.inj (List.cons.inj (hlong.symm.trans heq)).2).2]
      exact hline.padded.stem

/-- **What is found when a line ends** is a boundary, if the line reads as a delimiter. -/
theorem Scanned.boundaryFound_iff (h : Scanned ms boundaries s t line)
    (hcr : ∀ b ∈ boundaries, CR ∉ b) (ending : Ending) :
    (∃ b ∈ boundaries, t.boundaryFound ending = some b) ↔ Found boundaries line := by
  rcases h with h | h | ⟨before, pad, after, h, -, hdead⟩
  · rw [← h.found_iff hcr]
    have hline : t.lineBoundary = t.matchedCandidateBoundary := by
      rw [lineBoundary, h.boundary]
      rfl
    constructor
    · rintro ⟨b, -, hb⟩
      rw [boundaryFound, h.streaming, if_neg Bool.false_ne_true] at hb
      split at hb
      · cases hb
      · rw [hline] at hb
        cases hmatched : t.matchedCandidateBoundary with
        | none => rw [hmatched] at hb; cases hb
        | some found => rfl
    · intro hmatched
      obtain ⟨found, hfound⟩ := Option.isSome_iff_exists.mp hmatched
      obtain ⟨x, text, -, hcons, htrack, -⟩ := h.stem hmatched
      have hpos : 0 < t.candidate.length := by
        rw [h.candidate, hcons]
        exact Nat.succ_pos _
      refine ⟨found.boundary, htrack.matched_mem hfound, ?_⟩
      rw [boundaryFound, h.streaming, if_neg Bool.false_ne_true, if_neg (by simp [hpos]), hline,
        hfound]
      rfl
  · obtain ⟨found, hfound, hmem⟩ := h.boundary
    obtain ⟨x, u, pad, hline, -, -, -⟩ := h.parts
    refine ⟨fun _ => ⟨x, u, pad, _, hline, ?_⟩, fun _ => ⟨found.boundary, hmem, ?_⟩⟩
    · cases t.candidateCarriageReturn
      · exact .inl rfl
      · exact .inr rfl
    · rw [boundaryFound, h.streaming, if_neg Bool.false_ne_true, if_neg (by simp [hfound]),
        lineBoundary, hfound]
      rfl
  · constructor
    · rintro ⟨b, -, hb⟩
      rw [boundaryFound, h.streaming, if_pos rfl] at hb
      cases hb
    · intro hfound
      rw [← List.append_nil line] at hfound
      exact absurd hfound (hdead.found [])

end BoundedMimeSplitter

variable {boundaries : List (List UInt8)}

section

variable (hcr : ∀ b ∈ boundaries, CR ∉ b)
include hcr

/-- No stem with padding ends in a carriage return. -/
theorem Padded.ne_append_cr {u pad : List UInt8} (h : Padded boundaries u pad) :
    ∀ text, u ++ pad ≠ text ++ [CR] := by
  intro text heq
  have hmem : CR ∈ u ++ pad := by
    rw [heq]
    simp
  rcases List.mem_append.mp hmem with hu | hpad
  · exact h.stem.no_cr hcr hu
  · exact blank_ne_cr (h.blank CR hpad) rfl

/-- A line that is found, in terms of the line without its line break. -/
theorem found_iff (hending : ending = .lf → line.getLast? ≠ some CR) :
    Found boundaries (line ++ heldReturn ending) ↔
      (∃ x text, Lead x ∧ line = x :: HYPHEN :: text ∧ ReadsClearly boundaries text) ∨
      ending = .none ∧ ∃ x text, Lead x ∧ line = x :: HYPHEN :: (text ++ [CR]) ∧
        ReadsClearly boundaries text := by
  constructor
  · rintro ⟨x, u, pad, rest, hline, hrest⟩
    have heq := hline.eq
    cases ending with
    | none =>
        rw [heldReturn, if_neg nofun, List.append_nil] at heq
        rcases hrest with rfl | rfl
        · exact .inl ⟨x, u ++ pad, hline.lead, by simpa using heq, u, pad, hline.padded, rfl⟩
        · exact .inr ⟨rfl, x, u ++ pad, hline.lead, by simpa using heq, u, pad, hline.padded, rfl⟩
    | lf =>
        rw [heldReturn, if_neg nofun, List.append_nil] at heq
        rcases hrest with rfl | rfl
        · exact .inl ⟨x, u ++ pad, hline.lead, by simpa using heq, u, pad, hline.padded, rfl⟩
        · refine absurd ?_ (hending rfl)
          rw [heq, ← List.cons_append, ← List.cons_append, List.getLast?_concat]
    | crlf =>
        rw [heldReturn, if_pos rfl] at heq
        rcases hrest with rfl | rfl
        · rw [List.append_nil] at heq
          rcases line with _ | ⟨a, _ | ⟨b, line⟩⟩
          · cases heq
          · cases (List.cons.inj heq).2
          · have htail := (List.cons.inj (List.cons.inj heq).2).2
            exact absurd htail.symm (hline.padded.ne_append_cr hcr line)
        · have hsplit : line ++ [CR] = (x :: HYPHEN :: (u ++ pad)) ++ [CR] := by
            rw [heq]
            simp
          exact .inl ⟨x, u ++ pad, hline.lead, (List.append_inj' hsplit rfl).1, u, pad,
            hline.padded, rfl⟩
  · rintro (⟨x, _, hx, rfl, u, pad, hpadded, rfl⟩ | ⟨rfl, x, _, hx, rfl, u, pad, hpadded, rfl⟩)
    · by_cases hcrlf : ending = .crlf
      · rw [heldReturn, if_pos hcrlf]
        exact ⟨x, u, pad, [CR], ⟨hx, hpadded, unblank_cr [], by simp⟩, .inr rfl⟩
      · rw [heldReturn, if_neg hcrlf]
        exact ⟨x, u, pad, [], ⟨hx, hpadded, unblank_nil, by simp⟩, .inl rfl⟩
    · rw [heldReturn, if_neg nofun]
      exact ⟨x, u, pad, [CR], ⟨hx, hpadded, unblank_cr [], by simp⟩, .inr rfl⟩

/-- A delimiter line begins with a dash and does not end in a carriage return. -/
theorem IsDelimiter.shape (h : IsDelimiter boundaries line) :
    (∀ text, line ≠ CR :: HYPHEN :: text) ∧ ∀ init, line ≠ init ++ [CR] := by
  obtain ⟨b, hb, closing, pad, hpad, rfl⟩ := h
  refine ⟨nofun, fun init heq => ?_⟩
  have hmem : CR ∈ [HYPHEN, HYPHEN] ++ b ++ (if closing then [HYPHEN, HYPHEN] else []) ++ pad := by
    rw [heq]
    simp
  rcases List.mem_append.mp hmem with hmem | hmem
  · rcases List.mem_append.mp hmem with hmem | hmem
    · rcases List.mem_append.mp hmem with hmem | hmem
      · exact absurd hmem (by decide)
      · exact hcr b hb hmem
    · cases closing
      · cases hmem
      · exact absurd hmem (by decide)
  · exact blank_ne_cr (hpad CR hmem) rfl

end

/-- A text that reads clearly is that of a delimiter line. -/
theorem ReadsClearly.isDelimiter {text : List UInt8} (h : ReadsClearly boundaries text) :
    IsDelimiter boundaries (HYPHEN :: HYPHEN :: text) := by
  obtain ⟨u, pad, hpadded, rfl⟩ := h
  rcases hpadded.stem with hu | ⟨b, hb, rfl⟩
  · exact ⟨u, hu, false, pad, hpadded.blank, by simp⟩
  · exact ⟨b, closable_mem hb, true, pad, hpadded.blank, by simp⟩

/-- **The lines that are found are the delimiters exactly when the line is `Recognisable`.** -/
theorem found_iff_isDelimiter (hcr : ∀ b ∈ boundaries, CR ∉ b)
    (hending : ending = .lf → line.getLast? ≠ some CR) :
    (Found boundaries (line ++ heldReturn ending) ↔ IsDelimiter boundaries line) ↔
      Recognisable boundaries line ending := by
  rw [found_iff hcr hending]
  constructor
  · intro hiff
    refine ⟨fun text heq hreads => ?_, fun hend x text hx heq hreads => ?_, fun hdelimiter => ?_⟩
    · have hdelimiter := hiff.mp (.inl ⟨CR, text, .inr rfl, heq, hreads⟩)
      exact (hdelimiter.shape hcr).1 text heq
    · have hdelimiter := hiff.mp (.inr ⟨hend, x, text, hx, heq, hreads⟩)
      exact (hdelimiter.shape hcr).2 (x :: HYPHEN :: text) heq
    · rcases hiff.mpr hdelimiter with ⟨x, text, hx, heq, hreads⟩ | ⟨-, x, text, -, heq, -⟩
      · rcases hx with rfl | rfl
        · exact ⟨text, heq, hreads⟩
        · exact absurd heq ((hdelimiter.shape hcr).1 text)
      · exact absurd heq ((hdelimiter.shape hcr).2 (x :: HYPHEN :: text))
  · intro h
    constructor
    · rintro (⟨x, text, hx, heq, hreads⟩ | ⟨hend, x, text, hx, heq, hreads⟩)
      · rcases hx with rfl | rfl
        · rw [heq]
          exact hreads.isDelimiter
        · exact absurd hreads (h.lead text heq)
      · exact absurd hreads (h.trail hend x text hx heq)
    · intro hdelimiter
      obtain ⟨text, heq, hreads⟩ := h.clear hdelimiter
      exact .inl ⟨HYPHEN, text, .inl rfl, heq, hreads⟩

namespace BoundedMimeSplitter

variable {M Node Data : Type} [DecidableEq Node] {ms : Mailsplit M Node Data}
  {s : BoundedMimeSplitter M Node Data}

/-- **The splitter recognises a line as the grammar says exactly when the line is
`Recognisable`**, in any state at the start of a body line, however the line is cut. -/
theorem recognition_exact (hregular : ms.Regular) (hstart : LineStart ms boundaries s)
    {line : List UInt8} (hline : ∀ b ∈ line, b ≠ LF) {ending : Ending}
    (hending : ending = .lf → line.getLast? ≠ some CR) {chunks : List (List UInt8)}
    (hchunks : chunks.flatten = line ++ heldReturn ending) :
    ((∃ b ∈ boundaries, delimiterFound ms s chunks ending = some b) ↔
      IsDelimiter boundaries line) ↔ Recognisable boundaries line ending := by
  have hbytes : ∀ b ∈ line ++ heldReturn ending, b ≠ LF := by
    intro b hb
    rcases List.mem_append.mp hb with hb | hb
    · exact hline b hb
    · rw [heldReturn] at hb
      split at hb
      · rw [List.mem_singleton.mp hb]
        decide
      · cases hb
  obtain ⟨t, ht, hscanned⟩ := scan hstart hbytes
  rw [← found_iff_isDelimiter hstart.no_cr hending, delimiterFound, transforms_eq hregular,
    hchunks, ht]
  rw [hscanned.boundaryFound_iff hstart.no_cr ending]

/-- The splitter at the start of a body under one boundary, `b`. -/
def sampleStart : BoundedMimeSplitter Bool Unit (List UInt8) := new true 64

theorem sampleStart_lineStart : LineStart (plainMailsplit [[0x62]]) [[0x62]] sampleStart where
  body := by decide
  fresh := rfl
  streaming := rfl
  noReturn := rfl
  active := by
    have hnone : sampleStart.boundaryCacheNode ≠ some () := by decide
    rw [HasBoundaries, if_neg hnone]
    exact ⟨_, rfl⟩
  no_cr := by decide

/-- The delimiter `--b`, cut before its line break. -/
theorem recognition_exact_sample :
    ((∃ b ∈ [[0x62]], delimiterFound (plainMailsplit [[0x62]]) sampleStart
        [[HYPHEN, HYPHEN, 0x62], [CR]] .crlf = some b) ↔
      IsDelimiter [[0x62]] [HYPHEN, HYPHEN, 0x62]) ↔
    Recognisable [[0x62]] [HYPHEN, HYPHEN, 0x62] .crlf := by
  have hline : ∀ b ∈ [HYPHEN, HYPHEN, 0x62], b ≠ LF := by decide +kernel
  have hending : Ending.crlf = .lf → [HYPHEN, HYPHEN, 0x62].getLast? ≠ some CR := nofun
  exact recognition_exact (plainMailsplit_regular _) sampleStart_lineStart hline hending rfl

/-- A line of a carriage return, one dash and `b` is taken for a delimiter. -/
theorem carriageReturn_dash_found :
    delimiterFound (plainMailsplit [[0x62]]) sampleStart [[CR, HYPHEN, 0x62]] .lf = some [0x62] ∧
      ¬ IsDelimiter [[0x62]] [CR, HYPHEN, 0x62] := by
  refine ⟨by decide +kernel, ?_⟩
  rintro ⟨b, -, closing, pad, -, heq⟩
  cases heq

end BoundedMimeSplitter

end MailPortal.Mime
