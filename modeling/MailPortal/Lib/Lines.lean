import Mathlib.Data.List.Basic

/-!
# Lines of a Byte String

A byte string read as lines: each line has a body and an ending, LF or CRLF, and the last
line has none. A carriage return that no line feed follows belongs to the body.

`split_append` is the one rule the proofs need: bytes without a line feed, put in front of a
string, extend its first line, unless they end in a carriage return that meets a line feed.
-/

namespace Lines

variable {bs pre rest : List UInt8} {b : UInt8}

/-- Line feed. -/
def LF : UInt8 := 0x0a

/-- Carriage return. -/
def CR : UInt8 := 0x0d

/-- Space. -/
def SP : UInt8 := 0x20

/-- Horizontal tab. -/
def TAB : UInt8 := 0x09

/-- Linear white space. -/
def isBlankByte (b : UInt8) : Bool := b = SP || b = TAB

/-- How a line ends. -/
inductive Ending
  | none
  | lf
  | crlf
  deriving DecidableEq

/-- The bytes of an ending. -/
def Ending.bytes : Ending → List UInt8
  | .none => []
  | .lf => [LF]
  | .crlf => [CR, LF]

/-- A line with its ending. -/
structure Line where
  body : List UInt8
  ending : Ending
  deriving DecidableEq

variable {line : Line} {lines : List Line}

/-- The bytes of a line. -/
def Line.bytes (line : Line) : List UInt8 := line.body ++ line.ending.bytes

/-- Put a byte other than a line feed in front of a line. -/
def Line.cons (b : UInt8) (line : Line) : Line :=
  if b = CR ∧ line = ⟨[], .lf⟩ then ⟨[], .crlf⟩ else ⟨b :: line.body, line.ending⟩

/-- The lines of a byte string; there is always a last one, without an ending. -/
def split : List UInt8 → List Line
  | [] => [⟨[], .none⟩]
  | b :: rest =>
      if b = LF then ⟨[], .lf⟩ :: split rest
      else match split rest with
        | [] => [⟨[b], .none⟩]
        | line :: lines => line.cons b :: lines

theorem split_ne_nil (bs : List UInt8) : split bs ≠ [] := by
  cases bs with
  | nil => exact nofun
  | cons b rest =>
      rw [split]
      split
      · exact nofun
      · split <;> exact nofun

/-- Every byte string has a first line. -/
theorem exists_split (bs : List UInt8) : ∃ line lines, split bs = line :: lines := by
  cases h : split bs with
  | nil => exact absurd h (split_ne_nil bs)
  | cons line lines => exact ⟨line, lines, rfl⟩

theorem split_lf (rest : List UInt8) : split (LF :: rest) = ⟨[], .lf⟩ :: split rest := by
  rw [split, if_pos rfl]

theorem split_cons (hb : b ≠ LF) (h : split rest = line :: lines) :
    split (b :: rest) = line.cons b :: lines := by
  rw [split, if_neg hb, h]

/-- The bytes of a line with a byte put in front. -/
theorem Line.bytes_cons (line : Line) : (line.cons b).bytes = b :: line.bytes := by
  unfold Line.cons
  split
  · next h =>
      obtain ⟨rfl, rfl⟩ := h
      rfl
  · rfl

/-- The lines of a string make up the string. -/
theorem flatMap_bytes_split (bs : List UInt8) : (split bs).flatMap Line.bytes = bs := by
  induction bs with
  | nil => rfl
  | cons b rest ih =>
      by_cases hb : b = LF
      · rw [hb, split_lf, List.flatMap_cons, ih]
        rfl
      · obtain ⟨line, lines, h⟩ := exists_split rest
        rw [h, List.flatMap_cons] at ih
        rw [split_cons hb h, List.flatMap_cons, Line.bytes_cons, List.cons_append, ih]

/-- The first line of a string is an empty one ended by LF only when the string starts with
a line feed. -/
theorem eq_lf_of_split (h : split bs = ⟨[], .lf⟩ :: lines) : bs.head? = some LF := by
  cases bs with
  | nil => cases h
  | cons b rest =>
      by_cases hb : b = LF
      · rw [hb]; rfl
      · obtain ⟨line, lines', h'⟩ := exists_split rest
        rw [split_cons hb h'] at h
        obtain ⟨hline, -⟩ := List.cons.inj h
        unfold Line.cons at hline
        split at hline <;> cases hline

/-- Only the empty string has an empty first line without an ending. -/
theorem first_line_ne (hbs : bs ≠ []) (h : split bs = line :: lines) :
    line.body ≠ [] ∨ line.ending ≠ .none := by
  cases bs with
  | nil => exact absurd rfl hbs
  | cons b rest =>
      by_cases hb : b = LF
      · rw [hb, split_lf] at h
        cases h
        exact .inr nofun
      · obtain ⟨line', lines', h'⟩ := exists_split rest
        rw [split_cons hb h'] at h
        cases h
        unfold Line.cons
        split
        · exact .inr nofun
        · exact .inl nofun

/-- **Bytes in front of a string extend its first line**, when they contain no line feed and
do not end in a carriage return that meets one. -/
theorem split_append (h : split rest = line :: lines) (hpre : ∀ b ∈ pre, b ≠ LF)
    (hmeet : pre.getLast? = some CR → rest.head? ≠ some LF) :
    split (pre ++ rest) = ⟨pre ++ line.body, line.ending⟩ :: lines := by
  induction pre with
  | nil => exact h
  | cons b pre ih =>
      have hrest : split (pre ++ rest) = ⟨pre ++ line.body, line.ending⟩ :: lines := by
        refine ih (fun c hc => hpre c (List.mem_cons_of_mem b hc)) fun hlast => hmeet ?_
        cases pre with
        | nil => cases hlast
        | cons c pre => exact hlast
      rw [List.cons_append, split_cons (hpre b List.mem_cons_self) hrest]
      have hne : ¬ (b = CR ∧ (⟨pre ++ line.body, line.ending⟩ : Line) = ⟨[], .lf⟩) := by
        rintro ⟨hcr, hline⟩
        obtain ⟨hbody, hending⟩ := Line.mk.inj hline
        obtain ⟨hpre', hbody'⟩ := List.append_eq_nil_iff.mp hbody
        subst hpre'
        have hlf : split rest = ⟨[], .lf⟩ :: lines := by
          rw [h, ← hbody', ← hending]
        exact hmeet (by rw [hcr]; rfl) (eq_lf_of_split hlf)
      rw [Line.cons, if_neg hne]
      rfl

/-- A string without line feeds is one line. -/
theorem split_of_no_lf (h : ∀ b ∈ bs, b ≠ LF) : split bs = [⟨bs, .none⟩] := by
  have hnil : split [] = [⟨[], .none⟩] := rfl
  simpa using split_append hnil h fun _ => nofun

/-- A line ended by LF. -/
theorem split_append_lf (hpre : ∀ b ∈ pre, b ≠ LF) (hcr : pre.getLast? ≠ some CR)
    (rest : List UInt8) : split (pre ++ LF :: rest) = ⟨pre, .lf⟩ :: split rest := by
  simpa using split_append (split_lf rest) hpre fun h => absurd h hcr

/-- A line ended by CRLF. -/
theorem split_append_crlf (hpre : ∀ b ∈ pre, b ≠ LF) (rest : List UInt8) :
    split (pre ++ CR :: LF :: rest) = ⟨pre, .crlf⟩ :: split rest := by
  have hcrlf : split (CR :: LF :: rest) = ⟨[], .crlf⟩ :: split rest :=
    split_cons (by decide) (split_lf rest)
  simpa using split_append hcrlf hpre fun _ => by simp [CR, LF]

end Lines
