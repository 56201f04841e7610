import MailPortal.Mime.Splitter
import Mathlib.Data.List.Infix

/-!
# The Grammar of Delimiter Lines

A delimiter line of a boundary is two dashes, the boundary, two more dashes if it closes the
part, and padding. This module states the grammar (`IsDelimiter`) and the readings of a line
that a scanner without backtracking can find (`ReadsClearly`): it extends a boundary as long
as it can, and it counts the two closing dashes once.

A line is the two leading dashes and a text. The scanner also takes a carriage return for
the first of them, which is why a `Lead` is not two dashes.

Main results:

* `closable_iff`: a boundary can be closed unless it is itself a closable boundary with one
  or two dashes added.
* `PaddedLine.unique`: a line is a stem, padding and other text in one way at most.
-/

namespace MailPortal.Mime

open Lines

variable {b v u pad rest rest' text line : List UInt8} {c x : UInt8}
variable {u' pad' : List UInt8}

/-- A delimiter line of one of the boundaries. -/
def IsDelimiter (boundaries : List (List UInt8)) (line : List UInt8) : Prop :=
  ∃ b ∈ boundaries, ∃ closing : Bool, ∃ pad : List UInt8, (∀ c ∈ pad, isBlankByte c = true) ∧
    line = [HYPHEN, HYPHEN] ++ b ++ (if closing then [HYPHEN, HYPHEN] else []) ++ pad

/-- `closable`, for a boundary that is spelled backwards. -/
def closableReverse (boundaries : List (List UInt8)) : List UInt8 → Bool
  | [] => decide ([] ∈ boundaries)
  | [x] => decide ([x] ∈ boundaries) && !(x = HYPHEN && closableReverse boundaries [])
  | x :: y :: rest =>
      decide ((x :: y :: rest).reverse ∈ boundaries) &&
        !(x = HYPHEN && closableReverse boundaries (y :: rest)) &&
        !(x = HYPHEN && y = HYPHEN && closableReverse boundaries rest)

/-- A boundary after which closing dashes are counted: not when its own last one or two
dashes count as closing dashes of a shorter one. -/
def closable (boundaries : List (List UInt8)) (b : List UInt8) : Bool :=
  closableReverse boundaries b.reverse

/-- A boundary, or a closable boundary with its closing dashes. -/
def Stem (boundaries : List (List UInt8)) (u : List UInt8) : Prop :=
  u ∈ boundaries ∨ ∃ b, closable boundaries b = true ∧ u = b ++ [HYPHEN, HYPHEN]

/-- A stem with padding that does not begin by extending the stem to a longer boundary. -/
structure Padded (boundaries : List (List UInt8)) (u pad : List UInt8) : Prop where
  stem : Stem boundaries u
  blank : ∀ c ∈ pad, isBlankByte c = true
  free : ∀ c ∈ pad.head?, ∀ b ∈ boundaries, ¬ (u ++ [c]) <+: b

/-- The text after the leading dashes is a stem with such padding. -/
def ReadsClearly (boundaries : List (List UInt8)) (text : List UInt8) : Prop :=
  ∃ u pad, Padded boundaries u pad ∧ text = u ++ pad

variable {boundaries : List (List UInt8)}

/-! ### Closable boundaries -/

theorem closableReverse_nil : closableReverse boundaries [] = decide ([] ∈ boundaries) := rfl

theorem closableReverse_singleton (x : UInt8) :
    closableReverse boundaries [x] =
      (decide ([x] ∈ boundaries) && !(x = HYPHEN && closableReverse boundaries [])) := rfl

theorem closableReverse_cons (x y : UInt8) (rest : List UInt8) :
    closableReverse boundaries (x :: y :: rest) =
      (decide ((x :: y :: rest).reverse ∈ boundaries) &&
        !(x = HYPHEN && closableReverse boundaries (y :: rest)) &&
        !(x = HYPHEN && y = HYPHEN && closableReverse boundaries rest)) := rfl

theorem closableReverse_iff {r : List UInt8} :
    closableReverse boundaries r = true ↔ r.reverse ∈ boundaries ∧
      ∀ r', closableReverse boundaries r' = true →
        r ≠ HYPHEN :: r' ∧ r ≠ HYPHEN :: HYPHEN :: r' := by
  rcases r with _ | ⟨x, _ | ⟨y, rest⟩⟩
  · simp only [closableReverse_nil, List.reverse_nil, decide_eq_true_eq]
    simp
  · constructor
    · intro h
      simp only [closableReverse_singleton, Bool.and_eq_true, decide_eq_true_eq, Bool.not_eq_true',
        Bool.and_eq_false_iff, decide_eq_false_iff_not] at h
      refine ⟨by simpa using h.1, fun r' hr' => ⟨?_, nofun⟩⟩
      intro heq
      obtain ⟨hx, rfl⟩ := List.cons.inj heq
      rcases h.2 with hne | hnil
      · exact hne hx
      · exact Bool.eq_false_iff.mp hnil hr'
    · rintro ⟨hmem, hne⟩
      have hmem' : [x] ∈ boundaries := by simpa using hmem
      cases hnil : closableReverse boundaries [] with
      | false => simp [closableReverse_singleton, hmem', hnil]
      | true =>
          have hx : x ≠ HYPHEN := fun hx => (hne [] hnil).1 (by rw [hx])
          simp [closableReverse_singleton, hmem', hx]
  · constructor
    · intro h
      simp only [closableReverse_cons, Bool.and_eq_true, decide_eq_true_eq, Bool.not_eq_true',
        Bool.and_eq_false_iff, decide_eq_false_iff_not] at h
      obtain ⟨⟨hmem, hone⟩, htwo⟩ := h
      refine ⟨hmem, fun r' hr' => ⟨?_, ?_⟩⟩
      · intro hx
        obtain ⟨hx, hr⟩ := List.cons.inj hx
        simp [hr, hr', hx] at hone
      · intro hxy
        obtain ⟨hx, hy⟩ := List.cons.inj hxy
        obtain ⟨hy, hr⟩ := List.cons.inj hy
        simp [hr, hr', hx, hy] at htwo
    · rintro ⟨hmem, hne⟩
      simp only [closableReverse_cons, Bool.and_eq_true, decide_eq_true_eq, Bool.not_eq_true',
        Bool.and_eq_false_iff, decide_eq_false_iff_not]
      refine ⟨⟨hmem, ?_⟩, ?_⟩
      · by_cases hx : x = HYPHEN
        · refine .inr (Bool.eq_false_iff.mpr fun h => (hne _ h).1 (by rw [hx]))
        · exact .inl hx
      · by_cases hxy : x = HYPHEN ∧ y = HYPHEN
        · refine .inr (Bool.eq_false_iff.mpr fun h => (hne _ h).2 (by rw [hxy.1, hxy.2]))
        · simp only [not_and_or] at hxy
          exact .inl hxy

/-- **A boundary is closable** unless it is a closable one with one or two more dashes. -/
theorem closable_iff :
    closable boundaries b = true ↔ b ∈ boundaries ∧ ∀ b', closable boundaries b' = true →
      b ≠ b' ++ [HYPHEN] ∧ b ≠ b' ++ [HYPHEN, HYPHEN] := by
  have hback : ∀ b' : List UInt8, ∀ tail : List UInt8,
      b = b' ++ tail ↔ b.reverse = tail.reverse ++ b'.reverse := by
    intro b' tail
    rw [← List.reverse_append, List.reverse_inj]
  rw [closable, closableReverse_iff, List.reverse_reverse]
  refine and_congr_right fun _ => ⟨fun h b' hb' => ?_, fun h r hr => ?_⟩
  · obtain ⟨h₁, h₂⟩ := h b'.reverse hb'
    exact ⟨mt (hback b' _).mp h₁, mt (hback b' _).mp h₂⟩
  · obtain ⟨h₁, h₂⟩ := h r.reverse (by rwa [closable, List.reverse_reverse])
    rw [Ne, hback, List.reverse_reverse] at h₁ h₂
    exact ⟨h₁, h₂⟩

theorem closable_mem (h : closable boundaries b = true) : b ∈ boundaries :=
  (closable_iff.mp h).1

/-! ### Stems and padding -/

/-- What a longer path begins with, when it goes on with something else than a dash. -/
theorem isPrefix_of_dashes (hc : c ≠ HYPHEN) (h : (v ++ [c]) <+: b ++ [HYPHEN, HYPHEN]) :
    (v ++ [c]) <+: b := by
  have hne : ∀ t : List UInt8, v ++ [c] ≠ t ++ [HYPHEN] := by
    intro t ht
    exact hc (List.append_inj' ht rfl |>.2 |> List.cons.inj |>.1)
  have hsplit : b ++ [HYPHEN, HYPHEN] = (b ++ [HYPHEN]) ++ [HYPHEN] := by simp
  rw [hsplit, List.prefix_concat_iff] at h
  have h' := h.resolve_left (hne _)
  rw [List.prefix_concat_iff] at h'
  exact h'.resolve_left (hne _)

/-- A byte that is not a dash extends no stem unless it extends a boundary. -/
theorem Stem.not_prefix (hu : Stem boundaries u) (hc : c ≠ HYPHEN)
    (hfree : ∀ b ∈ boundaries, ¬ (v ++ [c]) <+: b) : ¬ (v ++ [c]) <+: u := by
  rcases hu with hu | ⟨b, hb, rfl⟩
  · exact hfree u hu
  · exact fun h => hfree b (closable_mem hb) (isPrefix_of_dashes hc h)

theorem blank_ne_hyphen (h : isBlankByte c = true) : c ≠ HYPHEN := by
  rintro rfl
  cases h

theorem blank_ne_cr (h : isBlankByte c = true) : c ≠ CR := by
  rintro rfl
  cases h

/-- A stem contains no carriage return, as no boundary does. -/
theorem Stem.no_cr (hu : Stem boundaries u) (hcr : ∀ b ∈ boundaries, CR ∉ b) : CR ∉ u := by
  rcases hu with hu | ⟨b, hb, rfl⟩
  · exact hcr u hu
  · intro h
    rcases List.mem_append.mp h with h | h
    · exact hcr b (closable_mem hb) h
    · exact absurd h (by decide)

/-- The byte after a clearly read stem does not extend the stem: it is the first byte of the
padding, or a carriage return. -/
structure Stops (boundaries : List (List UInt8)) (u : List UInt8) (c : UInt8) : Prop where
  ne_hyphen : c ≠ HYPHEN
  free : ∀ b ∈ boundaries, ¬ (u ++ [c]) <+: b

theorem Padded.stops (h : Padded boundaries u pad) (hc : c ∈ pad.head?) : Stops boundaries u c :=
  ⟨blank_ne_hyphen (h.blank c (List.mem_of_mem_head? hc)), h.free c hc⟩

theorem stops_cr (hcr : ∀ b ∈ boundaries, CR ∉ b) (u : List UInt8) : Stops boundaries u CR :=
  ⟨by decide, fun b hb h => hcr b hb (h.subset (by simp))⟩

/-- **Of two stems at the front of a text neither is shorter**, when the first one stops at
its next byte. -/
theorem Stops.not_shorter (h : Stops boundaries u c) (hu' : Stem boundaries u')
    (heq : u ++ c :: rest = u' ++ rest') : u'.length ≤ u.length := by
  by_contra hlt
  have hprefix : (u ++ [c]) <+: u' := by
    have hfront : (u ++ [c]) <+: u' ++ rest' := by
      rw [← heq]
      exact ⟨rest, by simp⟩
    refine List.prefix_of_prefix_length_le hfront (List.prefix_append _ _) ?_
    rw [List.length_append, List.length_singleton]
    omega
  exact hu'.not_prefix h.ne_hyphen h.free hprefix

/-- A text that may still become a stem. -/
def HeldText (boundaries : List (List UInt8)) (text : List UInt8) : Prop :=
  text = [] ∨ (∃ b ∈ boundaries, text <+: b) ∨
    ∃ b, closable boundaries b = true ∧ (text = b ++ [HYPHEN] ∨ text = b ++ [HYPHEN, HYPHEN])

theorem Stem.held (h : Stem boundaries u) : HeldText boundaries u := by
  rcases h with h | ⟨b, hb, rfl⟩
  · exact .inr (.inl ⟨u, h, List.prefix_refl u⟩)
  · exact .inr (.inr ⟨b, hb, .inr rfl⟩)

/-- A text that may still become a stem contains no carriage return. -/
theorem HeldText.no_cr (h : HeldText boundaries text) (hcr : ∀ b ∈ boundaries, CR ∉ b) :
    CR ∉ text := by
  rcases h with rfl | ⟨b, hb, h⟩ | ⟨b, hb, h⟩
  · nofun
  · exact fun hmem => hcr b hb (List.IsPrefix.subset h hmem)
  · rcases h with rfl | rfl <;> simp [hcr b (closable_mem hb), show CR ≠ HYPHEN by decide]

/-- What may still become a stem does not go past one that stops. -/
theorem HeldText.not_past (htext : HeldText boundaries text) (h : Stops boundaries u c) :
    ¬ (u ++ [c]) <+: text := by
  rcases htext with rfl | ⟨b, hb, htext⟩ | ⟨b, hb, htext⟩
  · intro hprefix
    simpa using List.prefix_nil.mp hprefix
  · exact fun hprefix => h.free b hb (List.IsPrefix.trans hprefix htext)
  · intro hprefix
    have hlong : (u ++ [c]) <+: b ++ [HYPHEN, HYPHEN] := by
      rcases htext with rfl | rfl
      · exact List.IsPrefix.trans hprefix ⟨[HYPHEN], by simp⟩
      · exact hprefix
    exact h.free b (closable_mem hb) (isPrefix_of_dashes h.ne_hyphen hlong)

/-! ### Lines -/

/-- The first byte of a line that the scanner holds back. -/
def Lead (x : UInt8) : Prop := x = HYPHEN ∨ x = CR

/-- The first byte of a text is no blank, if it has one. -/
def Unblank (text : List UInt8) : Prop := ∀ c ∈ text.head?, isBlankByte c = false

/-- A line that reads as a stem, padding and other text. -/
structure PaddedLine (boundaries : List (List UInt8)) (line : List UInt8) (x : UInt8)
    (u pad rest : List UInt8) : Prop where
  lead : Lead x
  padded : Padded boundaries u pad
  unblank : Unblank rest
  eq : line = x :: HYPHEN :: (u ++ pad ++ rest)

/-- A line that the scanner finds to be a delimiter when it ends: nothing follows the padding,
or a carriage return alone. -/
def Found (boundaries : List (List UInt8)) (line : List UInt8) : Prop :=
  ∃ x u pad rest, PaddedLine boundaries line x u pad rest ∧ (rest = [] ∨ rest = [CR])

theorem unblank_nil : Unblank [] := nofun

theorem unblank_cr (rest : List UInt8) : Unblank (CR :: rest) := by
  rintro c ⟨⟩
  rfl

/-- Padding ends where the blanks end. -/
theorem blanks_unique (hpad : ∀ c ∈ pad, isBlankByte c = true)
    (hpad' : ∀ c ∈ pad', isBlankByte c = true) (hrest : Unblank rest) (hrest' : Unblank rest')
    (h : pad ++ rest = pad' ++ rest') : pad = pad' ∧ rest = rest' := by
  have htake : ∀ {pad rest : List UInt8}, (∀ c ∈ pad, isBlankByte c = true) → Unblank rest →
      (pad ++ rest).takeWhile isBlankByte = pad := by
    intro pad rest hpad hrest
    rw [List.takeWhile_append_of_pos hpad]
    cases rest with
    | nil => simp
    | cons c rest => simp [hrest c rfl]
  have heq : pad = pad' := by rw [← htake hpad hrest, h, htake hpad' hrest']
  exact ⟨heq, by rw [heq] at h; exact List.append_cancel_left h⟩

/-- What comes after a stem that stops there: padding, or a carriage return. -/
theorem Padded.next (hcr : ∀ b ∈ boundaries, CR ∉ b) (h : Padded boundaries u pad)
    (hnext : pad ≠ [] ∨ rest.head? = some CR) :
    ∃ c tail, pad ++ rest = c :: tail ∧ Stops boundaries u c := by
  cases pad with
  | cons c pad => exact ⟨c, pad ++ rest, rfl, h.stops rfl⟩
  | nil =>
      have hhead := hnext.resolve_left fun h => h rfl
      cases rest with
      | nil => cases hhead
      | cons c rest =>
          cases hhead
          exact ⟨CR, rest, rfl, stops_cr hcr u⟩

/-- **A line reads in one way** as a stem, padding and other text, when something follows the
stem in either reading. -/
theorem PaddedLine.unique (hcr : ∀ b ∈ boundaries, CR ∉ b) {x' : UInt8}
    (h : PaddedLine boundaries line x u pad rest) (h' : PaddedLine boundaries line x' u' pad' rest')
    (hnext : pad ≠ [] ∨ rest.head? = some CR) (hnext' : pad' ≠ [] ∨ rest'.head? = some CR) :
    x = x' ∧ u = u' ∧ pad = pad' ∧ rest = rest' := by
  obtain ⟨hx, htext⟩ := List.cons.inj (h.eq.symm.trans h'.eq)
  have htext := (List.cons.inj htext).2
  rw [List.append_assoc, List.append_assoc] at htext
  obtain ⟨c, tail, hc, hstops⟩ := h.padded.next hcr hnext
  obtain ⟨c', tail', hc', hstops'⟩ := h'.padded.next hcr hnext'
  have hle : u'.length ≤ u.length :=
    hstops.not_shorter h'.padded.stem (by rw [← hc]; exact htext)
  have hge : u.length ≤ u'.length :=
    hstops'.not_shorter h.padded.stem (by rw [← hc']; exact htext.symm)
  obtain ⟨hu, hrest⟩ := List.append_inj htext (Nat.le_antisymm hge hle)
  obtain ⟨hpad, hrest⟩ :=
    blanks_unique h.padded.blank h'.padded.blank h.unblank h'.unblank hrest
  exact ⟨hx, hu, hpad, hrest⟩

/-! ### Lines that are no delimiters -/

/-- A line, not empty, that may still become a delimiter and has no padding so far. -/
def HeldLine (boundaries : List (List UInt8)) (line : List UInt8) : Prop :=
  ∃ x, Lead x ∧ (line = [x] ∨ ∃ text, line = x :: HYPHEN :: text ∧ HeldText boundaries text)

/-- A line that is held back has neither padding nor a carriage return after a stem. -/
theorem HeldLine.not_padded (hcr : ∀ b ∈ boundaries, CR ∉ b) (h : HeldLine boundaries line)
    (hline : PaddedLine boundaries line x u pad rest) : pad = [] ∧ rest.head? ≠ some CR := by
  by_contra hnext
  have hnext : pad ≠ [] ∨ rest.head? = some CR := by
    by_cases hpad : pad = []
    · exact .inr (not_not.mp fun hne => hnext ⟨hpad, hne⟩)
    · exact .inl hpad
  obtain ⟨c, tail, hc, hstops⟩ := hline.padded.next hcr hnext
  have heq := hline.eq
  rw [List.append_assoc, hc] at heq
  obtain ⟨x', -, hone | ⟨text, htext, hheld⟩⟩ := h
  · cases (List.cons.inj (hone.symm.trans heq)).2
  · have hsame := (List.cons.inj (List.cons.inj (htext.symm.trans heq)).2).2
    refine hheld.not_past hstops ⟨tail, ?_⟩
    rw [hsame]
    simp

/-- However the line goes on, it is not found to be a delimiter, and not held back for one. -/
structure Dead (boundaries : List (List UInt8)) (line : List UInt8) : Prop where
  found : ∀ rest, ¬ Found boundaries (line ++ rest)
  held : ∀ rest, ¬ HeldLine boundaries (line ++ rest)

theorem Dead.append (h : Dead boundaries line) (more : List UInt8) :
    Dead boundaries (line ++ more) := by
  refine ⟨fun rest => ?_, fun rest => ?_⟩ <;> rw [List.append_assoc]
  · exact h.found (more ++ rest)
  · exact h.held (more ++ rest)

/-- The padding of a line that is no delimiter, between what comes before and after it; no
padding when the line is not held back for that long. -/
structure LinePad (boundaries : List (List UInt8)) (line before pad after : List UInt8) :
    Prop where
  parts : line = before ++ pad ++ after
  found : pad ≠ [] → after ≠ [] ∧
    ∃ x u, PaddedLine boundaries line x u pad after ∧ before = x :: HYPHEN :: u
  only : ∀ x u pad' rest, PaddedLine boundaries line x u pad' rest → pad' ≠ [] → rest ≠ [] →
    pad' = pad

/-- More of a dead line. -/
theorem LinePad.append {before after : List UInt8} (hdead : Dead boundaries line)
    (h : LinePad boundaries line before pad after) (b : UInt8) :
    LinePad boundaries (line ++ [b]) before pad (after ++ [b]) := by
  refine ⟨by rw [h.parts]; simp, fun hpad => ?_, fun x u pad' rest hline hpad' hrest => ?_⟩
  · obtain ⟨hafter, x, u, hline, hbefore⟩ := h.found hpad
    refine ⟨by simp, x, u, ⟨hline.lead, hline.padded, ?_, ?_⟩, hbefore⟩
    · cases after with
      | nil => exact absurd rfl hafter
      | cons c after => exact hline.unblank
    · rw [hline.eq]
      simp
  · obtain ⟨rest, b', rfl⟩ : ∃ init last, rest = init ++ [last] :=
      ⟨rest.dropLast, rest.getLast hrest, (List.dropLast_concat_getLast hrest).symm⟩
    have heq : line ++ [b] = (x :: HYPHEN :: (u ++ pad' ++ rest)) ++ [b'] := by
      rw [hline.eq]
      simp
    obtain ⟨heq, -⟩ := List.append_inj' heq rfl
    have hunblank : Unblank rest := by
      intro c hc
      refine hline.unblank c ?_
      cases rest with
      | nil => cases hc
      | cons c' rest => exact hc
    have hline' : PaddedLine boundaries line x u pad' rest :=
      ⟨hline.lead, hline.padded, hunblank, heq⟩
    by_cases hnil : rest = []
    · have hfound : Found boundaries (line ++ []) := by
        rw [List.append_nil]
        exact ⟨x, u, pad', rest, hline', .inl hnil⟩
      exact absurd hfound (hdead.found [])
    · exact h.only x u pad' rest hline' hpad' hnil

/-- A line that does not begin like a delimiter. -/
theorem dead_of_start
    (h : ∀ x, Lead x → ∀ rest, line ++ rest ≠ [x] ∧ ∀ text, line ++ rest ≠ x :: HYPHEN :: text) :
    Dead boundaries line ∧ LinePad boundaries line line [] [] := by
  refine ⟨⟨?_, ?_⟩, by simp, fun hpad => absurd rfl hpad, fun x u pad rest hline => ?_⟩
  · rintro rest ⟨x, u, pad, more, hline, -⟩
    exact (h x hline.lead rest).2 _ hline.eq
  · rintro rest ⟨x, hx, hone | ⟨text, hmore, -⟩⟩
    · exact (h x hx rest).1 hone
    · exact (h x hx rest).2 text hmore
  · exact absurd (by simpa using hline.eq) ((h x hline.lead []).2 _)

/-- What leads to a text that is held is held. -/
theorem HeldText.of_prefix (hu : HeldText boundaries u) (h : v <+: u) : HeldText boundaries v := by
  have hclosing : ∀ b, closable boundaries b = true → v <+: b ++ [HYPHEN] →
      HeldText boundaries v := by
    intro b hb hv
    rcases List.prefix_concat_iff.mp hv with hv | hv
    · exact .inr (.inr ⟨b, hb, .inl hv⟩)
    · exact .inr (.inl ⟨b, closable_mem hb, hv⟩)
  rcases hu with rfl | ⟨b, hb, hu⟩ | ⟨b, hb, rfl | rfl⟩
  · exact .inl (List.prefix_nil.mp h)
  · exact .inr (.inl ⟨b, hb, List.IsPrefix.trans h hu⟩)
  · exact hclosing b hb h
  · have hsplit : b ++ [HYPHEN, HYPHEN] = (b ++ [HYPHEN]) ++ [HYPHEN] := by simp
    rw [hsplit, List.prefix_concat_iff] at h
    rcases h with h | h
    · exact .inr (.inr ⟨b, hb, .inr (by rw [h, hsplit])⟩)
    · exact hclosing b hb h

/-- Two fronts of one text. -/
theorem prefix_of_append_eq {s t : List UInt8} (h : u ++ s = v ++ t) (hle : u.length ≤ v.length) :
    u <+: v :=
  List.prefix_of_prefix_length_le ⟨s, h⟩ (List.prefix_append v t) hle

/-- **A held line that dies** at its next byte: the text can no longer become a stem, and the
byte is neither padding nor a carriage return after a stem. -/
theorem dead_of_held (hcr : ∀ b ∈ boundaries, CR ∉ b) (hheld : HeldText boundaries text)
    (hnext : ¬ HeldText boundaries (text ++ [c]))
    (hpad : Stem boundaries text → isBlankByte c = true → ∃ b ∈ boundaries, (text ++ [c]) <+: b)
    (hend : Stem boundaries text → c ≠ CR) :
    Dead boundaries (x :: HYPHEN :: (text ++ [c])) ∧
      LinePad boundaries (x :: HYPHEN :: (text ++ [c])) (x :: HYPHEN :: (text ++ [c])) [] [] := by
  refine ⟨⟨?_, ?_⟩, by simp, fun h => absurd rfl h, ?_⟩
  · rintro rest ⟨x', u, pad, more, hline, hmore⟩
    have heq : text ++ c :: rest = u ++ (pad ++ more) := by simpa using (List.cons.inj hline.eq).2
    by_cases hlong : text.length < u.length
    · have hfront : (text ++ [c]) <+: u := by
        refine prefix_of_append_eq (s := rest) (t := pad ++ more) ?_ ?_
        · simpa using heq
        · simpa using Nat.succ_le_of_lt hlong
      exact hnext (hline.padded.stem.held.of_prefix hfront)
    · have hlength := congrArg List.length heq
      simp only [List.length_append, List.length_cons] at hlength
      have hnonempty : pad ≠ [] ∨ more.head? = some CR := by
        rcases hmore with rfl | rfl
        · refine .inl fun hnil => ?_
          simp only [hnil, List.length_nil] at hlength
          omega
        · exact .inr rfl
      obtain ⟨c', tail, hc', hstops⟩ := hline.padded.next hcr hnonempty
      rw [hc'] at heq
      by_cases hsame : u.length = text.length
      · obtain ⟨rfl, hcons⟩ := List.append_inj heq hsame.symm
        obtain ⟨rfl, -⟩ := List.cons.inj hcons
        cases pad with
        | cons d pad =>
            obtain ⟨rfl, -⟩ := List.cons.inj hc'
            obtain ⟨b, hb, hext⟩ := hpad hline.padded.stem (hline.padded.blank d List.mem_cons_self)
            exact hstops.free b hb hext
        | nil =>
            rcases hmore with rfl | rfl
            · cases hc'
            · obtain ⟨rfl, -⟩ := List.cons.inj hc'
              exact hend hline.padded.stem rfl
      · refine hheld.not_past hstops (prefix_of_append_eq (s := tail) (t := c :: rest) ?_ ?_)
        · simpa using heq.symm
        · rw [List.length_append, List.length_singleton]
          omega
  · rintro rest ⟨x', -, hone | ⟨longer, heq, hlonger⟩⟩
    · cases (List.cons.inj hone).2
    · have htext : text ++ [c] ++ rest = longer := (List.cons.inj (List.cons.inj heq).2).2
      exact hnext (hlonger.of_prefix ⟨rest, htext⟩)
  · intro x' u pad rest hline hne hrest
    have heq : text ++ [c] = u ++ pad ++ rest := by simpa using (List.cons.inj hline.eq).2
    have hlength := congrArg List.length heq
    simp only [List.length_append, List.length_cons, List.length_nil] at hlength
    cases pad with
    | nil => exact absurd rfl hne
    | cons d pad =>
        have hpos := List.length_pos_iff.mpr hrest
        simp only [List.length_cons] at hlength
        refine absurd (prefix_of_append_eq (s := pad ++ rest) (t := [c]) ?_ ?_)
          (hheld.not_past (hline.padded.stops rfl))
        · simpa using heq.symm
        · rw [List.length_append, List.length_singleton]
          omega

/-- **A padded line that dies** at its next byte. -/
theorem dead_of_padded (hcr : ∀ b ∈ boundaries, CR ∉ b)
    (hline : PaddedLine boundaries line x u pad rest)
    (hrest : rest = [] ∧ isBlankByte c = false ∧ c ≠ CR ∨ rest = [CR])
    (hne : pad = [] → rest = [CR]) :
    Dead boundaries (line ++ [c]) ∧
      LinePad boundaries (line ++ [c]) (x :: HYPHEN :: u) pad (rest ++ [c]) := by
  have hmore : ∀ more, PaddedLine boundaries (line ++ c :: more) x u pad (rest ++ c :: more) := by
    intro more
    refine ⟨hline.lead, hline.padded, ?_, by rw [hline.eq]; simp⟩
    rcases hrest with ⟨rfl, hc, -⟩ | rfl
    · rintro d ⟨⟩
      exact hc
    · exact unblank_cr _
  have hnext : ∀ more, pad ≠ [] ∨ (rest ++ c :: more).head? = some CR := by
    intro more
    by_cases hnil : pad = []
    · rw [hne hnil]
      exact .inr rfl
    · exact .inl hnil
  refine ⟨⟨?_, ?_⟩, by rw [hline.eq]; simp, fun _ => ⟨by simp, x, u, hmore [], rfl⟩, ?_⟩
  · rintro more ⟨x', u', pad', rest', hline', hrest'⟩
    rw [List.append_assoc, List.singleton_append] at hline'
    have hnext' : pad' ≠ [] ∨ rest'.head? = some CR := by
      rcases hrest' with rfl | rfl
      · refine .inl fun hnil => ?_
        obtain ⟨d, tail, hd, hstops⟩ := (hmore more).padded.next hcr (hnext more)
        have heq : u ++ (pad ++ (rest ++ c :: more)) = u' ++ [] := by
          have hlines := (List.cons.inj ((hmore more).eq.symm.trans hline'.eq)).2
          simpa [hnil] using hlines
        have hle := hstops.not_shorter hline'.padded.stem (by rw [← hd]; exact heq)
        have hlength := congrArg List.length heq
        simp only [List.length_append, List.length_cons, List.length_nil] at hlength
        omega
      · exact .inr rfl
    obtain ⟨-, -, -, hsame⟩ := (hmore more).unique hcr hline' (hnext more) hnext'
    rcases hrest with ⟨rfl, -, hc⟩ | rfl
    · rcases hrest' with rfl | rfl
      · cases hsame
      · exact hc (List.cons.inj hsame).1
    · rcases hrest' with rfl | rfl
      · cases hsame
      · cases (List.cons.inj hsame).2
  · rintro more ⟨x', hx', hone | ⟨longer, heq, hlonger⟩⟩
    · have hfull := (hmore more).eq
      rw [List.append_assoc, List.singleton_append, hfull] at hone
      cases (List.cons.inj hone).2
    · obtain ⟨d, tail, hd, hstops⟩ := (hmore more).padded.next hcr (hnext more)
      have hfull := (hmore more).eq
      rw [List.append_assoc, List.singleton_append, hfull, List.append_assoc, hd] at heq
      have htext := (List.cons.inj (List.cons.inj heq).2).2
      exact hlonger.not_past hstops ⟨tail, by simpa using htext⟩
  · intro x' u' pad' rest' hline' hpad' _
    exact ((hmore []).unique hcr hline' (hnext []) (.inl hpad')).2.2.1.symm

end MailPortal.Mime
