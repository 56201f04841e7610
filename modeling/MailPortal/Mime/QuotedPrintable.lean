import MailPortal.Lib.Incremental
import MailPortal.Lib.Lines
import Mathlib.Data.List.DropRight

/-!
# The Quoted-Printable Decoder

`IncrementalQuotedPrintableDecoder` decodes a quoted-printable body as it arrives. It holds
back only what it cannot decide yet: white space that may turn out to be trailing, a
carriage return that may belong to a line break, and an equals sign with what follows it.

`decodeQuotedPrintable` is the decoder without a stream: it reads the whole input line by
line (`decodeLine`).

Main results:

* `decode_eq_decodeQuotedPrintable`: the two agree, for every input and every way of
  cutting it into chunks, and no byte outside an escape or a soft line break is lost but
  white space.

The proof follows `held`, the bytes of the input a state has read but not decided:
decoding the rest of the input from a state is decoding `held` in front of the rest.
-/

namespace MailPortal.Mime

open Incremental Lines

variable {high low : UInt8} {line : Line} {lines : List Line}

/-! ### Bytes -/

/-- The equals sign. -/
def EQUALS : UInt8 := 0x3d

/-- `#hexValue`: the value of a hexadecimal digit of either case. -/
def hexValue (b : UInt8) : Option UInt8 :=
  if 0x30 ≤ b ∧ b ≤ 0x39 then some (b - 0x30)
  else if 0x41 ≤ b ∧ b ≤ 0x46 then some (b - 0x41 + 10)
  else if 0x61 ≤ b ∧ b ≤ 0x66 then some (b - 0x61 + 10)
  else none

variable {b : UInt8}

/-- A hexadecimal digit has no other role. -/
theorem hexValue_eq_none (h : isBlankByte b = true ∨ b = LF ∨ b = CR ∨ b = EQUALS) :
    hexValue b = none := by
  simp only [isBlankByte, Bool.or_eq_true, decide_eq_true_eq] at h
  rcases h with (rfl | rfl) | rfl | rfl | rfl <;> rfl

/-- A hexadecimal digit is an ordinary byte. -/
theorem ordinary_of_hexValue {b value : UInt8} (h : hexValue b = some value) :
    isBlankByte b = false ∧ b ≠ LF ∧ b ≠ CR ∧ b ≠ EQUALS := by
  refine ⟨?_, ?_, ?_, ?_⟩
  · by_contra hb
    rw [hexValue_eq_none (.inl (by simpa using hb))] at h
    cases h
  all_goals
    rintro rfl
    cases h

/-! ### The decoder without a stream -/

/-- The byte that three bytes of the input stand for, when they are an escape. -/
def escapeValue (b x y : UInt8) : Option UInt8 :=
  if b = EQUALS then do
    let high ← hexValue x
    let low ← hexValue y
    pure (high <<< 4 ||| low)
  else none

/-- Decode the escapes of a line; an equals sign that starts none is kept. -/
def decodeEscapes : List UInt8 → List UInt8
  | b :: x :: y :: rest =>
      match escapeValue b x y with
      | some value => value :: decodeEscapes rest
      | none => b :: decodeEscapes (x :: y :: rest)
  | bs => bs

/-- Remove trailing white space. -/
def rstrip (bs : List UInt8) : List UInt8 := bs.rdropWhile isBlankByte

/-- What a line says, and what ends it. A carriage return at the very end of the input
counts as an ending. -/
def lineContent (line : Line) : List UInt8 × List UInt8 :=
  if line.ending = .none then
    if line.body.getLast? = some CR then (line.body.dropLast, [CR]) else (line.body, [])
  else (line.body, line.ending.bytes)

/-- Decode what a line says: an equals sign at its end joins a terminated line to the next,
otherwise literal trailing white space is dropped. -/
def decodeContent (terminated : Bool) (content ending : List UInt8) : List UInt8 :=
  if (rstrip content).getLast? = some EQUALS then
    if terminated then decodeEscapes (rstrip content).dropLast
    else decodeEscapes content ++ ending
  else decodeEscapes (rstrip content) ++ ending

/-- Decode one line. -/
def decodeLine (line : Line) : List UInt8 :=
  decodeContent (line.ending ≠ .none) (lineContent line).1 (lineContent line).2

/-- The whole-input decoder. -/
def decodeQuotedPrintable (input : List UInt8) : List UInt8 := (split input).flatMap decodeLine

/-! ### Escapes -/

/-- The input does not start with an escape. -/
def NoEscape (bs : List UInt8) : Prop :=
  ∀ x y rest, bs = x :: y :: rest → hexValue x = none ∨ hexValue y = none

/-- A byte that is no equals sign is copied. -/
theorem decodeEscapes_cons (hb : b ≠ EQUALS) (rest : List UInt8) :
    decodeEscapes (b :: rest) = b :: decodeEscapes rest := by
  match rest with
  | [] => rfl
  | [x] => rfl
  | x :: y :: rest => rw [decodeEscapes, escapeValue, if_neg hb]

variable {rest : List UInt8}

/-- An equals sign that starts no escape is copied. -/
theorem decodeEscapes_equals (h : NoEscape rest) :
    decodeEscapes (EQUALS :: rest) = EQUALS :: decodeEscapes rest := by
  match rest with
  | [] => rfl
  | [x] => rfl
  | x :: y :: rest =>
      have hvalue : escapeValue EQUALS x y = none := by
        rcases h x y rest rfl with hx | hy
        · simp [escapeValue, hx]
        · cases hx : hexValue x <;> simp [escapeValue, hx, hy]
      rw [decodeEscapes, hvalue]

/-- An escape is decoded. -/
theorem decodeEscapes_escape {x y : UInt8} (hx : hexValue x = some high)
    (hy : hexValue y = some low) (rest : List UInt8) :
    decodeEscapes (EQUALS :: x :: y :: rest) = (high <<< 4 ||| low) :: decodeEscapes rest := by
  have hvalue : escapeValue EQUALS x y = some (high <<< 4 ||| low) := by
    simp [escapeValue, hx, hy]
  rw [decodeEscapes, hvalue]

/-- Nothing but spaces and tabs. -/
abbrev AllBlank (ws : List UInt8) : Prop := ∀ b ∈ ws, isBlankByte b = true

/-- White space is no equals sign. -/
theorem ne_equals_of_blank (h : isBlankByte b = true) : b ≠ EQUALS := by
  rintro rfl
  cases h

/-- White space is copied. -/
theorem decodeEscapes_blank {ws : List UInt8} (hws : AllBlank ws)
    (rest : List UInt8) : decodeEscapes (ws ++ rest) = ws ++ decodeEscapes rest := by
  induction ws with
  | nil => rfl
  | cons b ws ih =>
      rw [List.cons_append, decodeEscapes_cons (ne_equals_of_blank (hws b List.mem_cons_self)),
        ih fun c hc => hws c (List.mem_cons_of_mem b hc), List.cons_append]

/-! ### Trailing white space -/

theorem rstrip_of_blank {ws : List UInt8} (hws : AllBlank ws) :
    rstrip ws = [] :=
  List.rdropWhile_eq_nil_iff.mpr hws

theorem rstrip_initial (bs : List UInt8) : rstrip bs <+: bs := List.rdropWhile_prefix _ _

/-- A byte in front stays when something is left behind it, or it is no white space. -/
theorem rstrip_cons (h : isBlankByte b = false ∨ rstrip rest ≠ []) :
    rstrip (b :: rest) = b :: rstrip rest := by
  simp only [rstrip, List.rdropWhile, List.reverse_cons, List.dropWhile_append]
  by_cases hrest : rest.reverse.dropWhile isBlankByte = []
  · have hb : isBlankByte b = false := by
      rcases h with hb | hne
      · exact hb
      · exact absurd (by rw [rstrip, List.rdropWhile, hrest]; rfl) hne
    simp [hrest, hb]
  · have hne : (rest.reverse.dropWhile isBlankByte).isEmpty = false := by simpa using hrest
    simp [hne]

/-- White space in front stays when something is left behind it. -/
theorem rstrip_append {ws rest : List UInt8} (h : rstrip rest ≠ []) :
    rstrip (ws ++ rest) = ws ++ rstrip rest := by
  induction ws with
  | nil => rfl
  | cons b ws ih =>
      have hne : rstrip (ws ++ rest) ≠ [] := by
        rw [ih]
        exact List.append_ne_nil_of_right_ne_nil ws h
      rw [List.cons_append, rstrip_cons (.inr hne), ih, List.cons_append]

/-- A line that starts with anything but white space has something left. -/
theorem rstrip_cons_ne_nil (hb : isBlankByte b = false) (rest : List UInt8) :
    rstrip (b :: rest) ≠ [] := by
  rw [rstrip_cons (.inl hb)]
  exact nofun

/-! ### One line -/

/-- The last byte of a list with bytes in front. -/
theorem getLast?_append_of_ne_nil (pre : List UInt8) {bs : List UInt8} (h : bs ≠ []) :
    (pre ++ bs).getLast? = bs.getLast? := by
  rw [List.getLast?_append, List.getLast?_eq_getLast_of_ne_nil h, Option.some_or]

/-- Bytes in front of a line that has something left are copied, when they decode to
themselves in front of every part of the line. -/
theorem decodeContent_append (pre : List UInt8) {content : List UInt8} (hleft : rstrip content ≠ [])
    (hpre : ∀ part, part <+: content → decodeEscapes (pre ++ part) = pre ++ decodeEscapes part)
    (terminated : Bool) (ending : List UInt8) :
    decodeContent terminated (pre ++ content) ending =
      pre ++ decodeContent terminated content ending := by
  unfold decodeContent
  rw [rstrip_append hleft, getLast?_append_of_ne_nil pre hleft]
  split
  · split
    · rw [List.dropLast_append_of_ne_nil hleft]
      exact hpre _ ((List.dropLast_prefix _).trans (rstrip_initial content))
    · rw [hpre content (List.prefix_refl content), List.append_assoc]
  · rw [hpre _ (rstrip_initial content), List.append_assoc]

/-- A byte that is neither white space nor an equals sign is copied. -/
theorem decodeContent_cons (hb : isBlankByte b = false) (hne : b ≠ EQUALS) (terminated : Bool)
    (content ending : List UInt8) :
    decodeContent terminated (b :: content) ending =
      b :: decodeContent terminated content ending := by
  by_cases hleft : rstrip content = []
  · simp [decodeContent, rstrip_cons (.inl hb), hleft, hne, decodeEscapes_cons hne]
  · exact decodeContent_append [b] hleft (fun part _ => decodeEscapes_cons hne part) _ _

/-- An escape is decoded, whatever follows it. -/
theorem decodeContent_escape {x y : UInt8} (hx : hexValue x = some high)
    (hy : hexValue y = some low) (terminated : Bool) (content ending : List UInt8) :
    decodeContent terminated (EQUALS :: x :: y :: content) ending =
      (high <<< 4 ||| low) :: decodeContent terminated content ending := by
  have hstrip : rstrip (EQUALS :: x :: y :: content) = EQUALS :: x :: y :: rstrip content := by
    rw [rstrip_cons (.inl rfl), rstrip_cons (.inl (ordinary_of_hexValue hx).1),
      rstrip_cons (.inl (ordinary_of_hexValue hy).1)]
  have hne : y ≠ EQUALS := (ordinary_of_hexValue hy).2.2.2
  unfold decodeContent
  rw [hstrip]
  by_cases hleft : rstrip content = []
  · simp [hleft, hne, decodeEscapes_escape hx hy]
  · have hlast : (EQUALS :: x :: y :: rstrip content).getLast? = (rstrip content).getLast? :=
      getLast?_append_of_ne_nil [EQUALS, x, y] hleft
    have hdrop : (EQUALS :: x :: y :: rstrip content).dropLast =
        EQUALS :: x :: y :: (rstrip content).dropLast := by
      change ([EQUALS, x, y] ++ rstrip content).dropLast = [EQUALS, x, y] ++ _
      exact List.dropLast_append_of_ne_nil hleft
    rw [hlast, hdrop]
    simp only [decodeEscapes_escape hx hy]
    split
    · split <;> rfl
    · rfl

/-! ### The first line of an input -/

/-- Where a line starts, a carriage return that ends the input apart. -/
theorem lineContent_append {pre body : List UInt8} {ending : Ending}
    (h : body ≠ [] ∨ ending ≠ .none ∨ pre.getLast? ≠ some CR) :
    lineContent ⟨pre ++ body, ending⟩ =
      (pre ++ (lineContent ⟨body, ending⟩).1, (lineContent ⟨body, ending⟩).2) := by
  unfold lineContent
  by_cases hending : ending = .none
  · simp only [hending, if_true]
    by_cases hbody : body = []
    · have hcr : pre.getLast? ≠ some CR := by tauto
      simp [hbody, hcr]
    · rw [getLast?_append_of_ne_nil pre hbody]
      split
      · rw [List.dropLast_append_of_ne_nil hbody]
      · rfl
  · simp [hending]

/-- What the first line says is the start of the input. -/
theorem lineContent_initial {input : List UInt8} (h : split input = line :: lines) :
    (lineContent line).1 <+: input := by
  have hbody : line.body <+: input := by
    rw [← flatMap_bytes_split input, h, List.flatMap_cons, Line.bytes, List.append_assoc]
    exact List.prefix_append _ _
  refine List.IsPrefix.trans ?_ hbody
  unfold lineContent
  split
  · split
    · exact List.dropLast_prefix _
    · exact List.prefix_refl _
  · exact List.prefix_refl _

/-- `pre` does not end in a carriage return that belongs to a line break or to the end of
the input. -/
def Meets (pre rest : List UInt8) : Prop :=
  pre.getLast? = some CR → rest ≠ [] ∧ rest.head? ≠ some LF

/-- Bytes in front of an input are bytes in front of its first line. -/
theorem decode_append (pre out : List UInt8) (h : split rest = line :: lines)
    (hpre : ∀ b ∈ pre, b ≠ LF) (hmeet : Meets pre rest)
    (hline : ∀ terminated ending, decodeContent terminated (pre ++ (lineContent line).1) ending =
      out ++ decodeContent terminated (lineContent line).1 ending) :
    decodeQuotedPrintable (pre ++ rest) = out ++ decodeQuotedPrintable rest := by
  have hcontent : line.body ≠ [] ∨ line.ending ≠ .none ∨ pre.getLast? ≠ some CR := by
    by_cases hcr : pre.getLast? = some CR
    · have hne := first_line_ne (hmeet hcr).1 h
      tauto
    · exact .inr (.inr hcr)
  rw [decodeQuotedPrintable, decodeQuotedPrintable, h,
    split_append h hpre fun hcr => (hmeet hcr).2, List.flatMap_cons, List.flatMap_cons, decodeLine,
    lineContent_append hcontent, decodeLine]
  simp only [hline, List.append_assoc]

/-- An input that starts with a byte that is neither white space nor part of a line break has
something left of its first line. -/
theorem rstrip_lineContent_ne_nil (hblank : isBlankByte b = false) (hb : b ≠ LF)
    (hmeet : Meets [b] rest) (h : split (b :: rest) = line :: lines) :
    rstrip (lineContent line).1 ≠ [] := by
  obtain ⟨line', lines', h'⟩ := exists_split rest
  have hsplit : split (b :: rest) = ⟨[b] ++ line'.body, line'.ending⟩ :: lines' :=
    split_append h' (by simpa using hb) fun hcr => (hmeet hcr).2
  obtain ⟨rfl, -⟩ := List.cons.inj (h.symm.trans hsplit)
  have hcontent : line'.body ≠ [] ∨ line'.ending ≠ .none ∨
      ([b] : List UInt8).getLast? ≠ some CR := by
    by_cases hcr : ([b] : List UInt8).getLast? = some CR
    · have hne := first_line_ne (hmeet hcr).1 h'
      tauto
    · exact .inr (.inr hcr)
  rw [lineContent_append hcontent]
  exact rstrip_cons_ne_nil hblank _

/-! ### The whole input, byte by byte -/

section Decode

variable {b x y : UInt8} {ws rest : List UInt8}

theorem ne_lf_of_blank (hb : isBlankByte b = true) : b ≠ LF := by
  rintro rfl
  cases hb

theorem ne_cr_of_blank (hb : isBlankByte b = true) : b ≠ CR := by
  rintro rfl
  cases hb

/-- White space does not end in a carriage return. -/
theorem getLast?_blank_ne_cr (pre : List UInt8) (hpre : pre.getLast? ≠ some CR)
    (hws : AllBlank ws) : (pre ++ ws).getLast? ≠ some CR := by
  intro hlast
  by_cases hnil : ws = []
  · rw [hnil, List.append_nil] at hlast
    exact hpre hlast
  · rw [getLast?_append_of_ne_nil pre hnil] at hlast
    exact ne_cr_of_blank (hws CR (List.mem_of_getLast? hlast)) rfl

/-- An ordinary byte is copied. -/
theorem decode_cons (hblank : isBlankByte b = false) (hb : b ≠ LF) (hne : b ≠ EQUALS)
    (hmeet : Meets [b] rest) :
    decodeQuotedPrintable (b :: rest) = b :: decodeQuotedPrintable rest := by
  obtain ⟨line, lines, h⟩ := exists_split rest
  exact decode_append [b] [b] h (by simpa using hb) hmeet
    fun terminated ending => decodeContent_cons hblank hne terminated _ ending

/-- White space that something follows is copied. -/
theorem decode_blank (hws : AllBlank ws) (hblank : isBlankByte b = false)
    (hb : b ≠ LF) (hmeet : Meets [b] rest) :
    decodeQuotedPrintable (ws ++ b :: rest) = ws ++ decodeQuotedPrintable (b :: rest) := by
  obtain ⟨line, lines, h⟩ := exists_split (b :: rest)
  refine decode_append ws ws h (fun c hc => ne_lf_of_blank (hws c hc))
    (fun hcr => absurd hcr (getLast?_blank_ne_cr [] nofun hws)) fun terminated ending => ?_
  exact decodeContent_append ws (rstrip_lineContent_ne_nil hblank hb hmeet h)
    (fun part _ => decodeEscapes_blank hws part) terminated ending

/-- White space before a line feed is dropped. -/
theorem decode_blank_lf (hws : AllBlank ws) :
    decodeQuotedPrintable (ws ++ LF :: rest) = LF :: decodeQuotedPrintable rest := by
  rw [decodeQuotedPrintable, split_append_lf (fun c hc => ne_lf_of_blank (hws c hc))
    (getLast?_blank_ne_cr [] nofun hws), List.flatMap_cons]
  simp [decodeLine, lineContent, decodeContent, rstrip_of_blank hws, decodeEscapes, Ending.bytes,
    decodeQuotedPrintable]

/-- White space before a line break is dropped. -/
theorem decode_blank_crlf (hws : AllBlank ws) :
    decodeQuotedPrintable (ws ++ CR :: LF :: rest) = CR :: LF :: decodeQuotedPrintable rest := by
  rw [decodeQuotedPrintable, split_append_crlf (fun c hc => ne_lf_of_blank (hws c hc)),
    List.flatMap_cons]
  simp [decodeLine, lineContent, decodeContent, rstrip_of_blank hws, decodeEscapes, Ending.bytes,
    decodeQuotedPrintable]

/-- A lone equals sign followed by white space. -/
theorem rstrip_equals_blank (hws : AllBlank ws) :
    rstrip (EQUALS :: ws) = [EQUALS] := by
  rw [rstrip_cons (.inl rfl), rstrip_of_blank hws]

theorem equals_blank_ne_lf (hws : AllBlank ws) :
    ∀ c ∈ EQUALS :: ws, c ≠ LF := by
  intro c hc
  rcases List.mem_cons.mp hc with rfl | hmem
  · decide
  · exact ne_lf_of_blank (hws c hmem)

/-- A soft line break removes itself, before a line feed. -/
theorem decode_soft_lf (ws : List UInt8) (hws : AllBlank ws) :
    decodeQuotedPrintable (EQUALS :: ws ++ LF :: rest) = decodeQuotedPrintable rest := by
  rw [decodeQuotedPrintable, split_append_lf (equals_blank_ne_lf hws)
    (getLast?_blank_ne_cr [EQUALS] (by decide) hws), List.flatMap_cons]
  simp [decodeLine, lineContent, decodeContent, rstrip_equals_blank hws, decodeEscapes,
    decodeQuotedPrintable]

/-- A soft line break removes itself. -/
theorem decode_soft_crlf (ws : List UInt8) (hws : AllBlank ws) :
    decodeQuotedPrintable (EQUALS :: ws ++ CR :: LF :: rest) = decodeQuotedPrintable rest := by
  rw [decodeQuotedPrintable, split_append_crlf (equals_blank_ne_lf hws), List.flatMap_cons]
  simp [decodeLine, lineContent, decodeContent, rstrip_equals_blank hws, decodeEscapes,
    decodeQuotedPrintable]

/-- Only the start of an input can be an escape. -/
theorem NoEscape.of_prefix {part bs : List UInt8} (h : NoEscape bs) (hpart : part <+: bs) :
    NoEscape part := by
  rintro x y rest rfl
  obtain ⟨tail, rfl⟩ := hpart
  exact h x y (rest ++ tail) rfl

/-- White space after an equals sign makes no escape. -/
theorem noEscape_blank (hws : AllBlank ws) (hne : ws ≠ []) :
    NoEscape (ws ++ rest) := by
  intro x y tail hxy
  cases ws with
  | nil => exact absurd rfl hne
  | cons c ws =>
      obtain ⟨rfl, -⟩ := List.cons.inj hxy
      exact .inl (hexValue_eq_none (.inl (hws c List.mem_cons_self)))

/-- An equals sign that starts neither an escape nor a soft line break is copied, with the
white space behind it. -/
theorem decode_equals (ws : List UInt8) (hws : AllBlank ws)
    (hescape : NoEscape (ws ++ b :: rest))
    (hblank : isBlankByte b = false) (hb : b ≠ LF) (hmeet : Meets [b] rest) :
    decodeQuotedPrintable (EQUALS :: ws ++ b :: rest) =
      EQUALS :: ws ++ decodeQuotedPrintable (b :: rest) := by
  obtain ⟨line, lines, h⟩ := exists_split (b :: rest)
  refine decode_append (EQUALS :: ws) (EQUALS :: ws) h (equals_blank_ne_lf hws)
    (fun hcr => absurd hcr (getLast?_blank_ne_cr [EQUALS] (by decide) hws))
    fun terminated ending => ?_
  refine decodeContent_append (EQUALS :: ws) (rstrip_lineContent_ne_nil hblank hb hmeet h)
    (fun part hpart => ?_) terminated ending
  have hprefix : part <+: b :: rest := hpart.trans (lineContent_initial h)
  rw [List.cons_append, decodeEscapes_equals, decodeEscapes_blank hws, List.cons_append]
  exact hescape.of_prefix ((List.prefix_append_right_inj ws).mpr hprefix)

/-- An escape is decoded. -/
theorem decode_escape (hx : hexValue x = some high) (hy : hexValue y = some low) :
    decodeQuotedPrintable (EQUALS :: x :: y :: rest) =
      (high <<< 4 ||| low) :: decodeQuotedPrintable rest := by
  obtain ⟨-, hxlf, -, -⟩ := ordinary_of_hexValue hx
  obtain ⟨-, hylf, hycr, -⟩ := ordinary_of_hexValue hy
  obtain ⟨line, lines, h⟩ := exists_split rest
  refine decode_append [EQUALS, x, y] [high <<< 4 ||| low] h ?_ ?_
    fun terminated ending => decodeContent_escape hx hy terminated _ ending
  · intro c hc
    simp only [List.mem_cons, List.not_mem_nil, or_false] at hc
    rcases hc with rfl | rfl | rfl
    · decide
    · exact hxlf
    · exact hylf
  · intro hlast
    exact absurd (by simpa using hlast) hycr

/-! ### The end of the input -/

/-- An input that is one unfinished line. -/
theorem decode_unfinished (hlf : ∀ c ∈ rest, c ≠ LF) (hcr : rest.getLast? ≠ some CR) :
    decodeQuotedPrintable rest = decodeContent false rest [] := by
  rw [decodeQuotedPrintable, split_of_no_lf hlf, List.flatMap_singleton]
  simp [decodeLine, lineContent, hcr]

/-- An input that is one unfinished line and a carriage return. -/
theorem decode_unfinished_cr (hlf : ∀ c ∈ rest, c ≠ LF) :
    decodeQuotedPrintable (rest ++ [CR]) = decodeContent false rest [CR] := by
  have hlf' : ∀ c ∈ rest ++ [CR], c ≠ LF := by
    intro c hc
    rcases List.mem_append.mp hc with hmem | hmem
    · exact hlf c hmem
    · rw [List.mem_singleton.mp hmem]
      decide
  rw [decodeQuotedPrintable, split_of_no_lf hlf', List.flatMap_singleton]
  simp [decodeLine, lineContent]

/-- Trailing white space at the end of the input is dropped. -/
theorem decode_end_blank (hws : AllBlank ws) :
    decodeQuotedPrintable ws = [] := by
  rw [decode_unfinished (fun c hc => ne_lf_of_blank (hws c hc))
    (getLast?_blank_ne_cr [] nofun hws)]
  simp [decodeContent, rstrip_of_blank hws, decodeEscapes]

/-- So is white space before a carriage return that ends the input. -/
theorem decode_end_cr (hws : AllBlank ws) :
    decodeQuotedPrintable (ws ++ [CR]) = [CR] := by
  rw [decode_unfinished_cr fun c hc => ne_lf_of_blank (hws c hc)]
  simp [decodeContent, rstrip_of_blank hws, decodeEscapes]

/-- A last line of an equals sign and white space decodes to itself. -/
theorem decodeContent_end_equals (hws : AllBlank ws) (ending : List UInt8) :
    decodeContent false (EQUALS :: ws) ending = EQUALS :: ws ++ ending := by
  have hescapes : decodeEscapes (EQUALS :: ws) = EQUALS :: ws := by
    have hnone : NoEscape ws := by
      rintro x y rest rfl
      exact .inl (hexValue_eq_none (.inl (hws x List.mem_cons_self)))
    rw [decodeEscapes_equals hnone, ← List.append_nil ws, decodeEscapes_blank hws]
    rfl
  simp [decodeContent, rstrip_equals_blank hws, hescapes]

/-- An equals sign at the end of the input is kept, with the white space behind it. -/
theorem decode_end_equals (ws : List UInt8) (hws : AllBlank ws) :
    decodeQuotedPrintable (EQUALS :: ws) = EQUALS :: ws := by
  rw [decode_unfinished (equals_blank_ne_lf hws) (getLast?_blank_ne_cr [EQUALS] (by decide) hws),
    decodeContent_end_equals hws, List.append_nil]

theorem decode_end_equals_cr (ws : List UInt8) (hws : AllBlank ws) :
    decodeQuotedPrintable (EQUALS :: ws ++ [CR]) = EQUALS :: ws ++ [CR] := by
  rw [decode_unfinished_cr (equals_blank_ne_lf hws), decodeContent_end_equals hws]

/-- Half an escape at the end of the input is kept. -/
theorem decode_end_hex (hx : hexValue x = some high) :
    decodeQuotedPrintable [EQUALS, x] = [EQUALS, x] := by
  obtain ⟨hblank, hlf, hcr, hne⟩ := ordinary_of_hexValue hx
  have hlines : ∀ c ∈ [EQUALS, x], c ≠ LF := by
    intro c hc
    simp only [List.mem_cons, List.not_mem_nil, or_false] at hc
    rcases hc with rfl | rfl
    · decide
    · exact hlf
  rw [decode_unfinished hlines (by simp [hcr])]
  have hstrip : rstrip [EQUALS, x] = [EQUALS, x] := by
    rw [rstrip_cons (.inl rfl), rstrip_cons (.inl hblank)]
    rfl
  simp [decodeContent, hstrip, hne, decodeEscapes]

end Decode

/-! ### The decoder -/

/-- `PackedWhitespace`: a run of spaces and tabs, one bit a byte. The bits beyond `length`
may be left over from an earlier run. -/
structure PackedWhitespace where
  bits : ℕ → Bool
  length : ℕ

namespace PackedWhitespace

def empty : PackedWhitespace := ⟨fun _ => false, 0⟩

/-- `push`: a tab sets its bit, any other byte clears it. -/
def push (w : PackedWhitespace) (byte : UInt8) : PackedWhitespace :=
  ⟨Function.update w.bits w.length (byte = TAB), w.length + 1⟩

/-- `clear`. -/
def clear (w : PackedWhitespace) : PackedWhitespace := { w with length := 0 }

/-- The bytes that `drain` writes before it clears the run. -/
def bytes (w : PackedWhitespace) : List UInt8 :=
  (List.range w.length).map fun i => if w.bits i then TAB else SP

@[simp] theorem bytes_empty : empty.bytes = [] := rfl

@[simp] theorem bytes_clear (w : PackedWhitespace) : w.clear.bytes = [] := rfl

/-- A pushed byte is drained last. -/
theorem bytes_push (w : PackedWhitespace) {byte : UInt8} (h : isBlankByte byte = true) :
    (w.push byte).bytes = w.bytes ++ [byte] := by
  have hbyte : (if byte = TAB then TAB else SP) = byte := by
    simp only [isBlankByte, Bool.or_eq_true, decide_eq_true_eq] at h
    rcases h with rfl | rfl <;> rfl
  rw [bytes, bytes, push]
  simp only [List.range_succ, List.map_append, List.map_singleton, Function.update_self,
    decide_eq_true_eq, hbyte]
  congr 1
  refine List.map_congr_left fun i hi => ?_
  simp [Function.update_of_ne (List.mem_range.mp hi).ne]

/-- A run is white space. -/
theorem bytes_blank (w : PackedWhitespace) : ∀ b ∈ w.bytes, isBlankByte b = true := by
  intro b hb
  obtain ⟨i, -, rfl⟩ := List.mem_map.mp hb
  split <;> rfl

end PackedWhitespace

inductive QuotedPrintableState
  | normal
  | equals
  | equalsCarriageReturn
  | equalsPadding
  | equalsPaddingCarriageReturn
  | hex
  deriving DecidableEq

/-- The state of the decoder: its fields, and what it has written. -/
structure IncrementalQuotedPrintableDecoder where
  state : QuotedPrintableState
  pendingCarriageReturn : Bool
  firstHexByte : UInt8
  trailingWhitespace : PackedWhitespace
  equalsPadding : PackedWhitespace
  output : Output UInt8

namespace IncrementalQuotedPrintableDecoder

def new : IncrementalQuotedPrintableDecoder where
  state := .normal
  pendingCarriageReturn := false
  firstHexByte := 0
  trailingWhitespace := .empty
  equalsPadding := .empty
  output := .empty

/-- `emitByte`, into the 64 KiB output buffer. -/
def emitByte (d : IncrementalQuotedPrintableDecoder) (byte : UInt8) :
    IncrementalQuotedPrintableDecoder :=
  { d with output := d.output.emit (64 * 1024) byte }

/-- `emitPacked(trailingWhitespace)`: the buffer is handed on before the run is. -/
def emitTrailing (d : IncrementalQuotedPrintableDecoder) : IncrementalQuotedPrintableDecoder :=
  if d.trailingWhitespace.length = 0 then d
  else { d with
    output := d.output.flush.push d.trailingWhitespace.bytes
    trailingWhitespace := d.trailingWhitespace.clear }

/-- `emitPacked(equalsPadding)`. -/
def emitPadding (d : IncrementalQuotedPrintableDecoder) : IncrementalQuotedPrintableDecoder :=
  if d.equalsPadding.length = 0 then d
  else { d with
    output := d.output.flush.push d.equalsPadding.bytes
    equalsPadding := d.equalsPadding.clear }

/-- A byte in the state `normal` with no carriage return pending. -/
def readPlain (d : IncrementalQuotedPrintableDecoder) (byte : UInt8) :
    IncrementalQuotedPrintableDecoder :=
  if byte = SP || byte = TAB then
    { d with trailingWhitespace := d.trailingWhitespace.push byte }
  else if byte = CR then { d with pendingCarriageReturn := true }
  else if byte = LF then
    emitByte { d with trailingWhitespace := d.trailingWhitespace.clear } LF
  else if byte = EQUALS then { d.emitTrailing with state := .equals }
  else d.emitTrailing.emitByte byte

/-- A byte in the state `normal`. -/
def readNormal (d : IncrementalQuotedPrintableDecoder) (byte : UInt8) :
    IncrementalQuotedPrintableDecoder :=
  if d.pendingCarriageReturn then
    let d := { d with pendingCarriageReturn := false }
    if byte = LF then
      (emitByte { d with trailingWhitespace := d.trailingWhitespace.clear } CR).emitByte LF
    else (d.emitTrailing.emitByte CR).readPlain byte
  else d.readPlain byte

/-- One turn of the loop of `_transform` over the bytes of a chunk. An escape or a soft line
break that fails goes back to `normal` with the same byte. -/
def read (d : IncrementalQuotedPrintableDecoder) (byte : UInt8) :
    IncrementalQuotedPrintableDecoder :=
  match d.state with
  | .normal => d.readNormal byte
  | .equals =>
      if byte = LF then { d with state := .normal }
      else if byte = CR then { d with state := .equalsCarriageReturn }
      else if byte = SP || byte = TAB then
        { d with equalsPadding := d.equalsPadding.push byte, state := .equalsPadding }
      else if (hexValue byte).isSome then { d with firstHexByte := byte, state := .hex }
      else readNormal { d.emitByte EQUALS with state := .normal } byte
  | .equalsCarriageReturn =>
      if byte = LF then { d with state := .normal }
      else readNormal { (d.emitByte EQUALS).emitByte CR with state := .normal } byte
  | .equalsPadding =>
      if byte = SP || byte = TAB then { d with equalsPadding := d.equalsPadding.push byte }
      else if byte = LF then
        { d with equalsPadding := d.equalsPadding.clear, state := .normal }
      else if byte = CR then { d with state := .equalsPaddingCarriageReturn }
      else readNormal { (d.emitByte EQUALS).emitPadding with state := .normal } byte
  | .equalsPaddingCarriageReturn =>
      if byte = LF then { d with equalsPadding := d.equalsPadding.clear, state := .normal }
      else readNormal { ((d.emitByte EQUALS).emitPadding).emitByte CR with state := .normal } byte
  | .hex =>
      match hexValue d.firstHexByte, hexValue byte with
      | some high, some low => { d.emitByte (high <<< 4 ||| low) with state := .normal }
      | _, _ =>
          readNormal { (d.emitByte EQUALS).emitByte d.firstHexByte with state := .normal } byte

/-- `_transform`, with its buffer handed on at the end of each chunk. -/
def machine : Machine IncrementalQuotedPrintableDecoder UInt8 where
  step := read
  endChunk := fun d => { d with output := d.output.flush }

/-- What `_flush` writes. -/
def suffix (d : IncrementalQuotedPrintableDecoder) : List UInt8 :=
  let start : List UInt8 := if d.pendingCarriageReturn then [CR] else []
  match d.state with
  | .normal => start
  | .equals => start ++ [EQUALS]
  | .equalsCarriageReturn => start ++ [EQUALS, CR]
  | .hex => start ++ [EQUALS, d.firstHexByte]
  | .equalsPadding => start ++ [EQUALS] ++ d.equalsPadding.bytes
  | .equalsPaddingCarriageReturn => start ++ [EQUALS] ++ d.equalsPadding.bytes ++ [CR]

/-- The whole output for an input that arrives in chunks. -/
def decode (chunks : List (List UInt8)) : List UInt8 :=
  let d := machine.run new chunks
  (d.output.push d.suffix).text

/-! ### What a state has read and not decided -/

/-- The bytes of the input that a state holds back. -/
def held (d : IncrementalQuotedPrintableDecoder) : List UInt8 :=
  match d.state with
  | .normal => d.trailingWhitespace.bytes ++ if d.pendingCarriageReturn then [CR] else []
  | .equals => [EQUALS]
  | .equalsCarriageReturn => [EQUALS, CR]
  | .equalsPadding => EQUALS :: d.equalsPadding.bytes
  | .equalsPaddingCarriageReturn => EQUALS :: d.equalsPadding.bytes ++ [CR]
  | .hex => [EQUALS, d.firstHexByte]

/-- What the decoder makes of the rest of the input. -/
def spec (d : IncrementalQuotedPrintableDecoder) (rest : List UInt8) : List UInt8 :=
  d.output.text ++ decodeQuotedPrintable (d.held ++ rest)

/-- What is set in which state. -/
structure Valid (d : IncrementalQuotedPrintableDecoder) : Prop where
  pending : d.pendingCarriageReturn = true → d.state = .normal
  trailing : d.state ≠ .normal → d.trailingWhitespace.length = 0
  padding : d.state ≠ .equalsPadding → d.state ≠ .equalsPaddingCarriageReturn →
    d.equalsPadding.length = 0
  padded : d.state = .equalsPadding → d.equalsPadding.length ≠ 0
  hex : d.state = .hex → (hexValue d.firstHexByte).isSome

/-- `d'` is the state of `d` after the byte `b`: for any further input the same comes out. -/
def Reads (d : IncrementalQuotedPrintableDecoder) (b : UInt8)
    (d' : IncrementalQuotedPrintableDecoder) : Prop :=
  d'.Valid ∧ ∀ rest, d'.spec rest = d.spec (b :: rest)

variable {d : IncrementalQuotedPrintableDecoder}

/-- A carriage return is only pending in the state `normal`. -/
theorem Valid.not_pending (h : d.Valid) (hstate : d.state ≠ .normal) :
    d.pendingCarriageReturn = false := by
  by_contra hp
  exact hstate (h.pending (by simpa using hp))

@[simp] theorem emitByte_text (d : IncrementalQuotedPrintableDecoder) (b : UInt8) :
    (d.emitByte b).output.text = d.output.text ++ [b] := by
  simp [emitByte]

@[simp] theorem emitTrailing_text (d : IncrementalQuotedPrintableDecoder) :
    d.emitTrailing.output.text = d.output.text ++ d.trailingWhitespace.bytes := by
  unfold emitTrailing
  split
  · next h => simp [PackedWhitespace.bytes, h]
  · simp

@[simp] theorem emitTrailing_length (d : IncrementalQuotedPrintableDecoder) :
    d.emitTrailing.trailingWhitespace.length = 0 := by
  unfold emitTrailing
  split
  · assumption
  · rfl

@[simp] theorem emitPadding_text (d : IncrementalQuotedPrintableDecoder) :
    d.emitPadding.output.text = d.output.text ++ d.equalsPadding.bytes := by
  unfold emitPadding
  split
  · next h => simp [PackedWhitespace.bytes, h]
  · simp

@[simp] theorem emitPadding_length (d : IncrementalQuotedPrintableDecoder) :
    d.emitPadding.equalsPadding.length = 0 := by
  unfold emitPadding
  split
  · assumption
  · rfl

/-- An empty run has no bytes. -/
theorem bytes_of_length {w : PackedWhitespace} (h : w.length = 0) : w.bytes = [] := by
  simp [PackedWhitespace.bytes, h]

/-- Nothing else changes when a byte is written. -/
@[simp] theorem emitByte_fields (d : IncrementalQuotedPrintableDecoder) (b : UInt8) :
    (d.emitByte b).state = d.state ∧
      (d.emitByte b).pendingCarriageReturn = d.pendingCarriageReturn ∧
      (d.emitByte b).firstHexByte = d.firstHexByte ∧
      (d.emitByte b).trailingWhitespace = d.trailingWhitespace ∧
      (d.emitByte b).equalsPadding = d.equalsPadding :=
  ⟨rfl, rfl, rfl, rfl, rfl⟩

/-- Nothing else changes when a run is written. -/
@[simp] theorem emitTrailing_fields (d : IncrementalQuotedPrintableDecoder) :
    d.emitTrailing.state = d.state ∧
      d.emitTrailing.pendingCarriageReturn = d.pendingCarriageReturn ∧
      d.emitTrailing.firstHexByte = d.firstHexByte ∧
      d.emitTrailing.equalsPadding = d.equalsPadding := by
  unfold emitTrailing
  split <;> exact ⟨rfl, rfl, rfl, rfl⟩

@[simp] theorem emitPadding_fields (d : IncrementalQuotedPrintableDecoder) :
    d.emitPadding.state = d.state ∧
      d.emitPadding.pendingCarriageReturn = d.pendingCarriageReturn ∧
      d.emitPadding.firstHexByte = d.firstHexByte ∧
      d.emitPadding.trailingWhitespace = d.trailingWhitespace := by
  unfold emitPadding
  split <;> exact ⟨rfl, rfl, rfl, rfl⟩

/-- A byte read with nothing but white space held back. -/
theorem readPlain_spec (hstate : d.state = .normal) (hpending : d.pendingCarriageReturn = false)
    (hpadding : d.equalsPadding.length = 0) :
    (d.readPlain b).Valid ∧ ∀ rest, (d.readPlain b).spec rest =
      d.output.text ++ decodeQuotedPrintable (d.trailingWhitespace.bytes ++ b :: rest) := by
  have hws := d.trailingWhitespace.bytes_blank
  unfold readPlain
  split
  · next hblank =>
      refine ⟨by constructor <;> simp [hstate, hpending, hpadding], fun rest => ?_⟩
      simp [spec, held, hstate, hpending, d.trailingWhitespace.bytes_push hblank]
  · next hblank =>
      have hblank' : isBlankByte b = false := by simpa [isBlankByte] using hblank
      split
      · next hcr =>
          refine ⟨by constructor <;> simp [hstate, hpadding], fun rest => ?_⟩
          simp [spec, held, hstate, hcr]
      · next hcr =>
          have hmeet : ∀ rest, Meets [b] rest := fun rest hlast => absurd (by simpa using hlast) hcr
          split
          · next hlf =>
              refine ⟨by constructor <;> simp [hstate, hpending, hpadding],
                fun rest => ?_⟩
              simp [spec, held, emitByte, hstate, hpending, hlf, decode_blank_lf hws]
          · next hlf =>
              have hline : ∀ rest, decodeQuotedPrintable (d.trailingWhitespace.bytes ++ b :: rest) =
                  d.trailingWhitespace.bytes ++ decodeQuotedPrintable (b :: rest) :=
                fun rest => decode_blank hws hblank' hlf (hmeet rest)
              split
              · next heq =>
                  refine ⟨by constructor <;> simp [hpending, hpadding], fun rest => ?_⟩
                  rw [hline]
                  simp [spec, held, heq]
              · next heq =>
                  have hempty : (d.emitTrailing.emitByte b).trailingWhitespace.bytes = [] :=
                    bytes_of_length d.emitTrailing_length
                  refine ⟨by constructor <;> simp [hstate, hpending, hpadding],
                    fun rest => ?_⟩
                  rw [hline, decode_cons hblank' hlf heq (hmeet rest), spec, held]
                  simp [hstate, hpending, bytes_of_length]

/-- A byte read in the state `normal`. -/
theorem readNormal_spec (hstate : d.state = .normal) (hpadding : d.equalsPadding.length = 0) :
    Reads d b (d.readNormal b) := by
  have hws := d.trailingWhitespace.bytes_blank
  unfold readNormal
  split
  · next hpending =>
      split
      · next hlf =>
          refine ⟨by constructor <;> simp [hstate, hpadding], fun rest => ?_⟩
          simp [spec, held, emitByte, hstate, hpending, hlf, decode_blank_crlf hws]
      · next hlf =>
          have hmeet : ∀ rest, Meets [CR] (b :: rest) := fun rest _ => ⟨nofun, by simpa using hlf⟩
          obtain ⟨hvalid, hspec⟩ := readPlain_spec (b := b)
            (d := ({ d with pendingCarriageReturn := false }.emitTrailing).emitByte CR)
            (by simp [hstate]) (by simp) (by simp [hpadding])
          refine ⟨hvalid, fun rest => ?_⟩
          rw [hspec, spec, held, hstate]
          have hline := decode_blank hws rfl (by decide) (hmeet rest)
          have hcopy := decode_cons rfl (by decide) (by decide) (hmeet rest)
          simp [hpending, bytes_of_length, hline, hcopy]
  · next hpending =>
      obtain ⟨hvalid, hspec⟩ := readPlain_spec (b := b) hstate (by simpa using hpending) hpadding
      refine ⟨hvalid, fun rest => ?_⟩
      rw [hspec, spec, held, hstate]
      simp [hpending]

/-- Giving up: what was held back is written as `out`, and the byte is read again. -/
theorem giveUp_spec (out : List UInt8) {d d' : IncrementalQuotedPrintableDecoder}
    (hstate : d'.state = .normal) (hpending : d'.pendingCarriageReturn = false)
    (htrailing : d'.trailingWhitespace.length = 0) (hpadding : d'.equalsPadding.length = 0)
    (htext : d'.output.text = d.output.text ++ out)
    (hdecode : ∀ rest, decodeQuotedPrintable (d.held ++ b :: rest) =
      out ++ decodeQuotedPrintable (b :: rest)) : Reads d b (d'.readNormal b) := by
  obtain ⟨hvalid, hspec⟩ := readNormal_spec (b := b) hstate hpadding
  refine ⟨hvalid, fun rest => ?_⟩
  rw [hspec, spec, spec, hdecode, htext, held, hstate]
  simp [hpending, bytes_of_length htrailing]

section Read

variable {d : IncrementalQuotedPrintableDecoder} {b : UInt8}

/-- After an equals sign: a soft line break or an escape may follow. -/
theorem read_equals (h : d.Valid) (hstate : d.state = .equals) :
    Reads d b (d.read b) := by
  have hlength := h.padding (by simp [hstate]) (by simp [hstate])
  have htrailing := h.trailing (by simp [hstate])
  have hpending := h.not_pending (by simp [hstate])
  simp only [read, hstate]
  split
  · next hlf =>
      refine ⟨by constructor <;> simp [hlength, hpending], fun rest => ?_⟩
      have hsoft : decodeQuotedPrintable (EQUALS :: LF :: rest) = decodeQuotedPrintable rest :=
        decode_soft_lf [] nofun
      simp [spec, held, hstate, hpending, bytes_of_length htrailing, hlf, hsoft]
  · next hlf =>
      split
      · next hcr =>
          refine ⟨by constructor <;> simp [hlength, hpending, htrailing], fun rest => ?_⟩
          simp [spec, held, hstate, hcr]
      · next hcr =>
          split
          · next hblank =>
              refine ⟨by constructor <;> simp [PackedWhitespace.push, hpending, htrailing],
                fun rest => ?_⟩
              simp [spec, held, hstate, d.equalsPadding.bytes_push hblank, bytes_of_length hlength]
          · next hblank =>
              have hblank' : isBlankByte b = false := by simpa [isBlankByte] using hblank
              split
              · next hhex =>
                  refine ⟨by constructor <;> simp [hlength, hpending, htrailing, hhex],
                    fun rest => ?_⟩
                  simp [spec, held, hstate]
              · next hhex =>
                  refine giveUp_spec [EQUALS] rfl hpending htrailing hlength
                    (by simp) fun rest => ?_
                  have hescape : NoEscape ([] ++ b :: rest) := by
                    rintro x y tail hxy
                    cases hxy
                    exact .inl (by simpa using hhex)
                  rw [held, hstate]
                  exact decode_equals [] nofun hescape hblank' hlf
                    fun hlast => absurd (by simpa using hlast) hcr

/-- After an equals sign and white space. -/
theorem read_equalsPadding (h : d.Valid) (hstate : d.state = .equalsPadding) :
    Reads d b (d.read b) := by
  have htrailing := h.trailing (by simp [hstate])
  have hpending := h.not_pending (by simp [hstate])
  have hpad := d.equalsPadding.bytes_blank
  simp only [read, hstate]
  split
  · next hblank =>
      refine ⟨by constructor <;> simp [PackedWhitespace.push, hpending, htrailing],
        fun rest => ?_⟩
      simp [spec, held, hstate, d.equalsPadding.bytes_push hblank]
  · next hblank =>
      have hblank' : isBlankByte b = false := by simpa [isBlankByte] using hblank
      split
      · next hlf =>
          refine ⟨by constructor <;> simp [PackedWhitespace.clear, hpending], fun rest => ?_⟩
          have hsoft : decodeQuotedPrintable (EQUALS :: (d.equalsPadding.bytes ++ LF :: rest)) =
              decodeQuotedPrintable rest := decode_soft_lf _ hpad
          simp [spec, held, hstate, hpending, bytes_of_length htrailing, hlf, hsoft]
      · next hlf =>
          split
          · next hcr =>
              refine ⟨by constructor <;> simp [hpending, htrailing], fun rest => ?_⟩
              simp [spec, held, hstate, hcr]
          · next hcr =>
              refine giveUp_spec (EQUALS :: d.equalsPadding.bytes) rfl (by simpa using hpending)
                (by simpa using htrailing) (by simp) (by simp) fun rest => ?_
              have hne : d.equalsPadding.bytes ≠ [] := by
                simpa [PackedWhitespace.bytes] using h.padded hstate
              rw [held, hstate]
              exact decode_equals _ hpad (noEscape_blank hpad hne) hblank' hlf
                fun hlast => absurd (by simpa using hlast) hcr

/-- After an equals sign, white space perhaps, and a carriage return. -/
theorem giveUp_cr_spec (pad : List UInt8) {d d' : IncrementalQuotedPrintableDecoder}
    (hpad : AllBlank pad) (hlf : b ≠ LF)
    (hstate : d'.state = .normal) (hpending : d'.pendingCarriageReturn = false)
    (htrailing : d'.trailingWhitespace.length = 0) (hpadding : d'.equalsPadding.length = 0)
    (htext : d'.output.text = d.output.text ++ (EQUALS :: pad ++ [CR]))
    (hheld : d.held = EQUALS :: pad ++ [CR]) :
    Reads d b (d'.readNormal b) := by
  refine giveUp_spec _ hstate hpending htrailing hpadding htext fun rest => ?_
  have hmeet : Meets [CR] (b :: rest) := fun _ => ⟨nofun, by simpa using hlf⟩
  have hescape : NoEscape (pad ++ CR :: b :: rest) := by
    by_cases hne : pad = []
    · rintro x y tail hxy
      rw [hne] at hxy
      cases hxy
      exact .inl rfl
    · exact noEscape_blank hpad hne
  rw [hheld, List.append_assoc, List.singleton_append,
    decode_equals _ hpad hescape rfl (by decide) hmeet,
    decode_cons rfl (by decide) (by decide) hmeet, List.append_assoc, List.singleton_append]

theorem read_equalsCarriageReturn (h : d.Valid) (hstate : d.state = .equalsCarriageReturn) :
    Reads d b (d.read b) := by
  have hlength := h.padding (by simp [hstate]) (by simp [hstate])
  have htrailing := h.trailing (by simp [hstate])
  have hpending := h.not_pending (by simp [hstate])
  simp only [read, hstate]
  split
  · next hlf =>
      refine ⟨by constructor <;> simp [hlength, hpending], fun rest => ?_⟩
      have hsoft : decodeQuotedPrintable (EQUALS :: CR :: LF :: rest) =
          decodeQuotedPrintable rest := decode_soft_crlf [] nofun
      simp [spec, held, hstate, hpending, bytes_of_length htrailing, hlf, hsoft]
  · next hlf =>
      exact giveUp_cr_spec [] nofun hlf rfl hpending htrailing hlength (by simp)
        (by simp [held, hstate])

theorem read_equalsPaddingCarriageReturn (h : d.Valid)
    (hstate : d.state = .equalsPaddingCarriageReturn) :
    Reads d b (d.read b) := by
  have htrailing := h.trailing (by simp [hstate])
  have hpending := h.not_pending (by simp [hstate])
  have hpad := d.equalsPadding.bytes_blank
  simp only [read, hstate]
  split
  · next hlf =>
      refine ⟨by constructor <;> simp [PackedWhitespace.clear, hpending], fun rest => ?_⟩
      have hsoft : decodeQuotedPrintable (EQUALS :: (d.equalsPadding.bytes ++ CR :: LF :: rest)) =
          decodeQuotedPrintable rest := decode_soft_crlf _ hpad
      simp [spec, held, hstate, hpending, bytes_of_length htrailing, hlf, hsoft]
  · next hlf =>
      exact giveUp_cr_spec _ hpad hlf rfl (by simpa using hpending) (by simpa using htrailing)
        (by simp) (by simp) (by simp [held, hstate])

theorem read_hex (h : d.Valid) (hstate : d.state = .hex) :
    Reads d b (d.read b) := by
  have hlength := h.padding (by simp [hstate]) (by simp [hstate])
  have htrailing := h.trailing (by simp [hstate])
  have hpending := h.not_pending (by simp [hstate])
  obtain ⟨high, hhigh⟩ := Option.isSome_iff_exists.mp (h.hex hstate)
  simp only [read, hstate, hhigh]
  cases hlow : hexValue b with
  | some low =>
      refine ⟨by constructor <;> simp [hlength, hpending], fun rest => ?_⟩
      simp [spec, held, hstate, emitByte, hpending, bytes_of_length htrailing,
        decode_escape hhigh hlow]
  | none =>
      obtain ⟨hblank, hlf, hcr, hne⟩ := ordinary_of_hexValue hhigh
      refine giveUp_spec [EQUALS, d.firstHexByte] rfl hpending htrailing hlength
        (by simp) fun rest => ?_
      have hescape : NoEscape ([] ++ d.firstHexByte :: b :: rest) := by
        rintro x y tail hxy
        obtain ⟨-, hxy'⟩ := List.cons.inj hxy
        cases hxy'
        exact .inr hlow
      have hmeet : Meets [d.firstHexByte] (b :: rest) :=
        fun hlast => absurd (by simpa using hlast) hcr
      have hfirst : decodeQuotedPrintable (EQUALS :: d.firstHexByte :: b :: rest) =
          EQUALS :: decodeQuotedPrintable (d.firstHexByte :: b :: rest) :=
        decode_equals [] nofun hescape hblank hlf hmeet
      rw [held, hstate]
      simp only [List.cons_append, List.nil_append]
      rw [hfirst, decode_cons hblank hlf hne hmeet]

end Read

/-- **One byte keeps the specification**, in every state. -/
theorem read_spec (h : d.Valid) (b : UInt8) : Reads d b (d.read b) := by
  cases hstate : d.state with
  | normal =>
      have hread : d.read b = d.readNormal b := by rw [read, hstate]
      rw [hread]
      exact readNormal_spec hstate (h.padding (by simp [hstate]) (by simp [hstate]))
  | equals => exact read_equals h hstate
  | equalsCarriageReturn => exact read_equalsCarriageReturn h hstate
  | equalsPadding => exact read_equalsPadding h hstate
  | equalsPaddingCarriageReturn => exact read_equalsPaddingCarriageReturn h hstate
  | hex => exact read_hex h hstate

/-- The decoder follows its specification. -/
theorem machine_follows : Follows machine Valid spec where
  step := fun d b h => read_spec h b
  endChunk := fun d h => by
    refine ⟨⟨h.pending, h.trailing, h.padding, h.padded, h.hex⟩, fun rest => ?_⟩
    simp only [machine, spec, Output.text_flush]
    rfl

/-- What a state holds back is written as it is at the end of the input, trailing white space
excepted. -/
theorem decode_held (h : d.Valid) : decodeQuotedPrintable d.held = d.suffix := by
  have hpad := d.equalsPadding.bytes_blank
  unfold held suffix
  cases hstate : d.state with
  | normal =>
      cases hp : d.pendingCarriageReturn with
      | false => simp [decode_end_blank d.trailingWhitespace.bytes_blank]
      | true => simp [decode_end_cr d.trailingWhitespace.bytes_blank]
  | equals =>
      have hend := decode_end_equals [] nofun
      simp [h.not_pending (by simp [hstate]), hend]
  | equalsCarriageReturn =>
      have hend : decodeQuotedPrintable [EQUALS, CR] = [EQUALS, CR] :=
        decode_end_equals_cr [] nofun
      simp [h.not_pending (by simp [hstate]), hend]
  | equalsPadding => simp [h.not_pending (by simp [hstate]), decode_end_equals _ hpad]
  | equalsPaddingCarriageReturn =>
      have hend := decode_end_equals_cr _ hpad
      simp only [List.cons_append] at hend
      simp [h.not_pending (by simp [hstate]), hend]
  | hex =>
      obtain ⟨high, hhigh⟩ := Option.isSome_iff_exists.mp (h.hex hstate)
      simp [h.not_pending (by simp [hstate]), decode_end_hex hhigh]

/-- Between chunks nothing is left in the output buffer. -/
theorem held_run (chunks : List (List UInt8)) : (machine.run new chunks).output.held = [] :=
  Machine.run_endChunk (P := fun d : IncrementalQuotedPrintableDecoder => d.output.held = []) rfl
    (fun d => d.output.held_flush) chunks

/-- **The decoder is the whole-input decoder**, for every way of cutting the input. -/
theorem decode_eq (chunks : List (List UInt8)) :
    decode chunks = decodeQuotedPrintable chunks.flatten := by
  have hnew : new.Valid := by constructor <;> simp [new, PackedWhitespace.empty]
  obtain ⟨hvalid, hspec⟩ := machine_follows.run hnew chunks
  have hend := hspec []
  rw [List.append_nil] at hend
  calc decode chunks
      = (machine.run new chunks).output.text ++ (machine.run new chunks).suffix :=
        Output.text_push (held_run chunks) _
    _ = (machine.run new chunks).spec [] := by rw [spec, List.append_nil, decode_held hvalid]
    _ = new.spec chunks.flatten := hend
    _ = decodeQuotedPrintable chunks.flatten := by
        simp [spec, new, held]

end IncrementalQuotedPrintableDecoder

/-! ### What is lost -/

/-- A piece of a quoted-printable text: a byte that stands for itself, an escape, or a soft
line break. -/
inductive Piece
  | byte (b : UInt8)
  | escape (x y : UInt8)
  | soft (padding : List UInt8) (ending : Ending)

/-- The bytes of a piece in the input. -/
def Piece.source : Piece → List UInt8
  | .byte b => [b]
  | .escape x y => [EQUALS, x, y]
  | .soft padding ending => EQUALS :: padding ++ ending.bytes

/-- What a piece stands for. -/
def Piece.meaning : Piece → List UInt8
  | .byte b => [b]
  | .escape x y => (escapeValue EQUALS x y).toList
  | .soft _ _ => []

/-- An escape has two digits; a soft line break is white space and a line break. -/
def Piece.WellFormed : Piece → Prop
  | .byte _ => True
  | .escape x y => (hexValue x).isSome ∧ (hexValue y).isSome
  | .soft padding ending => (∀ b ∈ padding, isBlankByte b = true) ∧ ending ≠ .none

/-- The pieces of a line, up to its soft line break. -/
def escapePieces : List UInt8 → List Piece
  | b :: x :: y :: rest =>
      if (escapeValue b x y).isSome then .escape x y :: escapePieces rest
      else .byte b :: escapePieces (x :: y :: rest)
  | bs => bs.map .byte

/-- An escape starts with an equals sign and has two digits. -/
theorem escapeValue_isSome {b x y : UInt8} (h : (escapeValue b x y).isSome) :
    b = EQUALS ∧ (hexValue x).isSome ∧ (hexValue y).isSome := by
  unfold escapeValue at h
  split at h
  · next hb =>
      cases hx : hexValue x with
      | none => simp [hx] at h
      | some high =>
          cases hy : hexValue y with
          | none => simp [hx, hy] at h
          | some low => exact ⟨hb, rfl, rfl⟩
  · cases h

/-- The pieces cover the input and say what it decodes to. -/
theorem escapePieces_spec (bs : List UInt8) :
    (escapePieces bs).flatMap Piece.source = bs ∧
      (escapePieces bs).flatMap Piece.meaning = decodeEscapes bs ∧
      ∀ p ∈ escapePieces bs, p.WellFormed := by
  induction bs using escapePieces.induct with
  | case1 b x y rest hvalue ih =>
      obtain ⟨hsource, hmeaning, hwell⟩ := ih
      obtain ⟨rfl, hx, hy⟩ := escapeValue_isSome hvalue
      obtain ⟨value, hsome⟩ := Option.isSome_iff_exists.mp hvalue
      rw [escapePieces, if_pos hvalue, decodeEscapes, hsome]
      refine ⟨?_, ?_, ?_⟩
      · simp [Piece.source, hsource]
      · simp [Piece.meaning, hsome, hmeaning]
      · exact List.forall_mem_cons.mpr ⟨⟨hx, hy⟩, hwell⟩
  | case2 b x y rest hvalue ih =>
      obtain ⟨hsource, hmeaning, hwell⟩ := ih
      have hnone : escapeValue b x y = none := by simpa using hvalue
      rw [escapePieces, if_neg hvalue, decodeEscapes, hnone]
      refine ⟨?_, ?_, ?_⟩
      · simp [Piece.source, hsource]
      · simp [Piece.meaning, hmeaning]
      · exact List.forall_mem_cons.mpr ⟨trivial, hwell⟩
  | case3 bs hshort =>
      have hpieces : escapePieces bs = bs.map .byte := by
        rw [escapePieces]
        exact hshort
      have hdecode : decodeEscapes bs = bs := by
        rw [decodeEscapes]
        exact hshort
      rw [hpieces, hdecode]
      refine ⟨by simp [Piece.source, List.flatMap_map], by simp [Piece.meaning, List.flatMap_map],
        ?_⟩
      intro p hp
      obtain ⟨b, -, rfl⟩ := List.mem_map.mp hp
      trivial

/-- White space behind a text starts no escape with it. -/
theorem decodeEscapes_append_blank (bs : List UInt8) {ws : List UInt8}
    (hws : AllBlank ws) : decodeEscapes (bs ++ ws) = decodeEscapes bs ++ ws := by
  have hself : decodeEscapes ws = ws := by
    rw [← List.append_nil ws, decodeEscapes_blank hws]
    rfl
  have hnone : ∀ x rest, ws = x :: rest → hexValue x = none := by
    rintro x rest rfl
    exact hexValue_eq_none (.inl (hws x List.mem_cons_self))
  induction bs using decodeEscapes.induct with
  | case1 b x y rest value hvalue ih =>
      simp only [List.cons_append, decodeEscapes, hvalue] at ih ⊢
      rw [ih]
  | case2 b x y rest hvalue ih =>
      simp only [List.cons_append, decodeEscapes, hvalue] at ih ⊢
      rw [ih]
  | case3 bs hshort =>
      have hescape : NoEscape ws := fun x y rest h => .inl (hnone x (y :: rest) h)
      rcases bs with _ | ⟨b, _ | ⟨x, _ | ⟨y, rest⟩⟩⟩
      · exact hself
      · by_cases hb : b = EQUALS
        · rw [hb, List.singleton_append, decodeEscapes_equals hescape, hself]
          rfl
        · rw [List.singleton_append, decodeEscapes_cons hb, hself]
          rfl
      · have htail : decodeEscapes (x :: ws) = x :: ws := by
          by_cases hx : x = EQUALS
          · rw [hx, decodeEscapes_equals hescape, hself]
          · rw [decodeEscapes_cons hx, hself]
        change decodeEscapes (b :: x :: ws) = _
        by_cases hb : b = EQUALS
        · have hescape' : NoEscape (x :: ws) := by
            intro u v rest h
            obtain ⟨-, hws'⟩ := List.cons.inj h
            exact .inr (hnone v rest hws')
          rw [hb, decodeEscapes_equals hescape', htail]
          rfl
        · rw [decodeEscapes_cons hb, htail]
          rfl
      · exact absurd rfl (hshort b x y rest)

/-- The pieces of a line. -/
def linePieces (line : Line) : List Piece :=
  if (rstrip (lineContent line).1).getLast? = some EQUALS ∧ line.ending ≠ .none then
    escapePieces (rstrip (lineContent line).1).dropLast ++
      [.soft ((lineContent line).1.rtakeWhile isBlankByte) line.ending]
  else escapePieces (lineContent line).1 ++ (lineContent line).2.map .byte

/-- A line is what it says and what ends it. -/
theorem lineContent_append_ending (line : Line) :
    (lineContent line).1 ++ (lineContent line).2 = line.bytes := by
  unfold lineContent Line.bytes
  split
  · next hending =>
      rw [hending]
      split
      · next hcr =>
          obtain ⟨body, hbody⟩ := List.getLast?_eq_some_iff.mp hcr
          simp [hbody, Ending.bytes]
      · rfl
  · rfl

/-- The pieces of a line cover it, and its decoding loses none of them but white space. -/
theorem linePieces_spec (line : Line) :
    (linePieces line).flatMap Piece.source = line.bytes ∧
      (∀ p ∈ linePieces line, p.WellFormed) ∧
      (decodeLine line).filter (!isBlankByte ·) =
        ((linePieces line).flatMap Piece.meaning).filter (!isBlankByte ·) := by
  have hbytes := lineContent_append_ending line
  have hstrip : rstrip (lineContent line).1 ++ (lineContent line).1.rtakeWhile isBlankByte =
      (lineContent line).1 := List.rdropWhile_append_rtakeWhile
  have hpad : ∀ b ∈ (lineContent line).1.rtakeWhile isBlankByte, isBlankByte b = true :=
    fun b hb => List.mem_rtakeWhile_imp hb
  by_cases hsoft : (rstrip (lineContent line).1).getLast? = some EQUALS ∧ line.ending ≠ .none
  · obtain ⟨hequals, hending⟩ := hsoft
    obtain ⟨hsource, hmeaning, hwell⟩ := escapePieces_spec (rstrip (lineContent line).1).dropLast
    obtain ⟨body, hbody⟩ := List.getLast?_eq_some_iff.mp hequals
    have hend : (lineContent line).2 = line.ending.bytes := by simp [lineContent, hending]
    rw [linePieces, if_pos ⟨hequals, hending⟩, decodeLine, decodeContent, if_pos hequals,
      if_pos (by simpa using hending)]
    refine ⟨?_, ?_, ?_⟩
    · rw [List.flatMap_append, hsource, ← hbytes, hend]
      conv_rhs => rw [← hstrip, hbody]
      simp [hbody, Piece.source]
    · intro p hp
      rcases List.mem_append.mp hp with hmem | hmem
      · exact hwell p hmem
      · rw [List.mem_singleton.mp hmem]
        exact ⟨hpad, hending⟩
    · simp [hmeaning, Piece.meaning]
  · obtain ⟨hsource, hmeaning, hwell⟩ := escapePieces_spec (lineContent line).1
    have hdecode : decodeEscapes (lineContent line).1 =
        decodeEscapes (rstrip (lineContent line).1) ++
          (lineContent line).1.rtakeWhile isBlankByte := by
      rw [← decodeEscapes_append_blank _ hpad, hstrip]
    have hblank : ((lineContent line).1.rtakeWhile isBlankByte).filter (!isBlankByte ·) = [] :=
      List.filter_eq_nil_iff.mpr fun b hb => by simp [hpad b hb]
    rw [linePieces, if_neg hsoft]
    refine ⟨?_, ?_, ?_⟩
    · rw [List.flatMap_append, hsource, ← hbytes]
      simp [Piece.source, List.flatMap_map]
    · intro p hp
      rcases List.mem_append.mp hp with hmem | hmem
      · exact hwell p hmem
      · obtain ⟨b, -, rfl⟩ := List.mem_map.mp hmem
        trivial
    · have hending :
          (rstrip (lineContent line).1).getLast? = some EQUALS → line.ending = .none := by
        intro hequals
        by_contra hne
        exact hsoft ⟨hequals, hne⟩
      have hright : ((escapePieces (lineContent line).1 ++
          (lineContent line).2.map Piece.byte).flatMap Piece.meaning) =
          decodeEscapes (lineContent line).1 ++ (lineContent line).2 := by
        rw [List.flatMap_append, hmeaning]
        simp [Piece.meaning, List.flatMap_map]
      rw [hright, decodeLine, decodeContent]
      split
      · next hequals => rw [if_neg (by simp [hending hequals])]
      · rw [hdecode]
        simp only [List.filter_append, hblank, List.append_nil]

/-- **The incremental decoder is the whole-input decoder.** However the input is cut, the
output is that of `decodeQuotedPrintable`; and the input falls into well-formed pieces, such
that the output is what the pieces stand for, up to white space that was dropped. -/
theorem decode_eq_decodeQuotedPrintable (chunks : List (List UInt8)) :
    IncrementalQuotedPrintableDecoder.decode chunks = decodeQuotedPrintable chunks.flatten ∧
    ∃ pieces : List Piece, pieces.flatMap Piece.source = chunks.flatten ∧
      (∀ p ∈ pieces, p.WellFormed) ∧
      (IncrementalQuotedPrintableDecoder.decode chunks).filter (!isBlankByte ·) =
        (pieces.flatMap Piece.meaning).filter (!isBlankByte ·) := by
  have hdecode := IncrementalQuotedPrintableDecoder.decode_eq chunks
  refine ⟨hdecode, (split chunks.flatten).flatMap linePieces, ?_, ?_, ?_⟩
  · rw [List.flatMap_assoc]
    conv_rhs => rw [← flatMap_bytes_split chunks.flatten]
    exact List.flatMap_congr fun line _ => (linePieces_spec line).1
  · intro p hp
    obtain ⟨line, -, hmem⟩ := List.mem_flatMap.mp hp
    exact (linePieces_spec line).2.1 p hmem
  · rw [hdecode, decodeQuotedPrintable, List.flatMap_assoc, List.filter_flatMap,
      List.filter_flatMap]
    exact List.flatMap_congr fun line _ => (linePieces_spec line).2.2

end MailPortal.Mime
