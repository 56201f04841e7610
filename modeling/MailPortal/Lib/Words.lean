import Mathlib.Data.List.DropRight
import MailPortal.Lib.SqlText

/-!
# Words in Texts

What trimming and lower case leave of a text, as far as a word of plain ASCII letters can be found
in it. Trimming takes characters of some kind from both ends of a text; a text that ends in other
characters is not changed by it. Lower case is what Unicode makes of each character: the letters of
ASCII have the case they have in ASCII, and the only other character that becomes a letter of ASCII
is the Kelvin sign.

Main results:

* `trimBoth_eq`: trimming more kinds of characters changes nothing when the text that is left by the
  first trimming ends in neither.
* `trimBoth_trimBoth`: what is left is not trimmed again.
* `suffix_trimBoth`: a word without such characters is at the end of both.
* `LowerCase.suffix_iff`, `LowerCase.eq_iff`: a plain word is at the end of the lower case of a text
  when it is there up to ASCII case.
-/

namespace Words

open SqlText

/-! ### Trimming -/

section Trimming

variable {α β : Type*} {P Q : α → Bool} {text before after core : List α}

/-- The text without what of a kind stands at its end. -/
def trimEnd (P : α → Bool) (text : List α) : List α := (text.reverse.dropWhile P).reverse

/-- The text without what of a kind stands at its two ends. -/
def trimBoth (P : α → Bool) (text : List α) : List α := trimEnd P (text.dropWhile P)

/-- The text ends in a character of another kind. -/
def EndsOutside (P : α → Bool) (text : List α) : Prop := ∃ c, text.getLast? = some c ∧ P c = false

theorem trimEnd_append (h : EndsOutside P core) (hafter : ∀ c ∈ after, P c = true) :
    trimEnd P (core ++ after) = core := by
  obtain ⟨c, hlast, hc⟩ := h
  obtain ⟨front, rfl⟩ := List.getLast?_eq_some_iff.mp hlast
  have hnot : ¬P c = true := by rw [hc]; nofun
  rw [trimEnd, List.reverse_append,
    List.dropWhile_append_of_pos fun d hd => hafter d (List.mem_reverse.mp hd),
    List.reverse_append, List.reverse_singleton, List.singleton_append,
    List.dropWhile_cons_of_neg hnot, List.reverse_cons, List.reverse_reverse]

/-- What is left, and what was behind it. -/
theorem exists_trimEnd (P : α → Bool) (text : List α) :
    ∃ after, text = trimEnd P text ++ after ∧ ∀ c ∈ after, P c = true := by
  refine ⟨(text.reverse.takeWhile P).reverse, ?_, fun c hc => ?_⟩
  · rw [trimEnd, ← List.reverse_append, List.takeWhile_append_dropWhile, List.reverse_reverse]
  · exact List.mem_takeWhile_imp (List.mem_reverse.mp hc)

/-- **Trimming more kinds** changes nothing where the text ends outside them. -/
theorem trimEnd_eq (hPQ : ∀ c, P c = true → Q c = true) (h : EndsOutside Q (trimEnd P text)) :
    trimEnd Q text = trimEnd P text := by
  obtain ⟨after, htext, hafter⟩ := exists_trimEnd P text
  calc trimEnd Q text = trimEnd Q (trimEnd P text ++ after) := by rw [← htext]
    _ = trimEnd P text := trimEnd_append h fun c hc => hPQ c (hafter c hc)

/-- In front of what is left there is only what is trimmed, or nothing is left at all. -/
theorem exists_trimBoth (P : α → Bool) (text : List α) :
    ∃ before, (∀ c ∈ before, P c = true) ∧ trimEnd P text = before ++ trimBoth P text := by
  have hsplit := (List.takeWhile_append_dropWhile (p := P) (l := text)).symm
  cases hdrop : text.dropWhile P with
  | nil =>
    rw [hdrop, List.append_nil] at hsplit
    have hall : ∀ c ∈ text, P c = true := fun c hc => List.mem_takeWhile_imp (hsplit ▸ hc)
    have hnone : trimEnd P text = [] := by
      rw [trimEnd, List.reverse_eq_nil_iff, List.dropWhile_eq_nil_iff]
      exact fun c hc => hall c (List.mem_reverse.mp hc)
    exact ⟨[], nofun, by rw [trimBoth, hdrop, hnone]; rfl⟩
  | cons c rest =>
    refine ⟨text.takeWhile P, fun d hd => List.mem_takeWhile_imp hd, ?_⟩
    have hc : P c ≠ true := by
      have := List.head?_dropWhile_not P text
      simpa [hdrop] using this
    rw [trimBoth]
    conv_lhs => rw [hsplit]
    rw [trimEnd, trimEnd, List.reverse_append, List.dropWhile_append, if_neg, List.reverse_append,
      List.reverse_reverse]
    rw [hdrop, List.isEmpty_iff, List.dropWhile_eq_nil_iff]
    exact fun hall => hc (hall c (List.mem_reverse.mpr List.mem_cons_self))

/-- **Trimming more kinds** from both ends, where what is left begins and ends outside them. -/
theorem trimBoth_eq (hPQ : ∀ c, P c = true → Q c = true)
    (hfirst : ∃ c rest, trimBoth P text = c :: rest ∧ Q c = false)
    (hlast : EndsOutside Q (trimBoth P text)) : trimBoth Q text = trimBoth P text := by
  obtain ⟨c, rest, hcore, hc⟩ := hfirst
  obtain ⟨before, hbefore, hright⟩ := exists_trimBoth P text
  obtain ⟨after, htext, hafter⟩ := exists_trimEnd P text
  have hnot : ¬Q c = true := by rw [hc]; nofun
  have hwhole : text = before ++ (c :: rest ++ after) := by
    rw [← hcore, ← List.append_assoc, ← hright, ← htext]
  have hdrop : text.dropWhile Q = trimBoth P text ++ after := by
    rw [hcore]
    conv_lhs => rw [hwhole]
    rw [List.dropWhile_append_of_pos fun d hd => hPQ d (hbefore d hd), List.cons_append,
      List.dropWhile_cons_of_neg hnot]
  rw [trimBoth, hdrop]
  exact trimEnd_append hlast fun d hd => hPQ d (hafter d hd)

theorem head_dropWhile : ∀ c ∈ (text.dropWhile P).head?, P c = false := by
  intro c hc
  have hnot := List.head?_dropWhile_not P text
  rw [Option.mem_def.mp hc] at hnot
  exact hnot

theorem dropWhile_of_head (h : ∀ c ∈ text.head?, P c = false) : text.dropWhile P = text := by
  cases text with
  | nil => rfl
  | cons c text => exact List.dropWhile_cons_of_neg (Bool.eq_false_iff.mp (h c rfl))

/-- Nothing is trimmed where both ends are of another kind. -/
theorem trimBoth_of_ends (hhead : ∀ c ∈ text.head?, P c = false)
    (hlast : ∀ c ∈ text.getLast?, P c = false) : trimBoth P text = text := by
  rw [trimBoth, dropWhile_of_head hhead, trimEnd,
    dropWhile_of_head (by rwa [List.head?_reverse]), List.reverse_reverse]

/-- What is left begins and ends in another kind. -/
theorem ends_trimBoth (P : α → Bool) (text : List α) :
    (∀ c ∈ (trimBoth P text).head?, P c = false) ∧
      ∀ c ∈ (trimBoth P text).getLast?, P c = false := by
  constructor
  · intro c hc
    obtain ⟨after, hafter, -⟩ := exists_trimEnd P (text.dropWhile P)
    obtain ⟨rest, hrest⟩ := List.head?_eq_some_iff.mp hc
    have hwhole : c ∈ (text.dropWhile P).head? := by
      rw [hafter, ← trimBoth, hrest]
      rfl
    exact head_dropWhile c hwhole
  · intro c hc
    rw [trimBoth, trimEnd, List.getLast?_reverse] at hc
    exact head_dropWhile c hc

theorem trimBoth_trimBoth (P : α → Bool) (text : List α) :
    trimBoth P (trimBoth P text) = trimBoth P text :=
  trimBoth_of_ends (ends_trimBoth P text).1 (ends_trimBoth P text).2

theorem mem_of_mem_trimBoth {c : α} (h : c ∈ trimBoth P text) : c ∈ text := by
  obtain ⟨before, -, hbefore⟩ := exists_trimBoth P text
  obtain ⟨after, hafter, -⟩ := exists_trimEnd P text
  rw [hafter, hbefore]
  exact List.mem_append_left _ (List.mem_append_right _ h)

/-- A suffix of two texts reaches into the first, or is one of the second. -/
theorem suffix_append_iff {word front back : List α} :
    word <:+ front ++ back ↔
      word <:+ back ∨ ∃ part, part ≠ [] ∧ part <:+ front ∧ word = part ++ back := by
  constructor
  · rintro ⟨lead, h⟩
    rcases List.append_eq_append_iff.mp h with ⟨part, hfront, hword⟩ | ⟨skipped, -, hback⟩
    · by_cases hpart : part = []
      · exact .inl ⟨[], by rw [hword, hpart]; rfl⟩
      · exact .inr ⟨part, hpart, ⟨lead, hfront.symm⟩, hword⟩
    · exact .inl ⟨skipped, hback.symm⟩
  · rintro (h | ⟨part, -, ⟨lead, hfront⟩, rfl⟩)
    · exact h.trans (List.suffix_append front back)
    · exact ⟨lead, by rw [← List.append_assoc, hfront]⟩

theorem eq_singleton_of_suffix {part : List α} {c : α} (hpart : part ≠ []) (h : part <:+ [c]) :
    part = [c] := by
  obtain ⟨lead, heq⟩ := h
  rcases List.append_eq_singleton_iff.mp heq with ⟨-, h⟩ | ⟨-, h⟩
  · exact h
  · exact absurd h hpart

/-- **Leading characters of a kind** hide no word that has none of them. -/
theorem suffix_trimBoth {f : α → β} {word : List β} (hword : ∀ c, P c = true → f c ∉ word) :
    word <:+ (trimBoth P text).map f ↔ word <:+ (trimEnd P text).map f := by
  obtain ⟨before, hbefore, hright⟩ := exists_trimBoth P text
  rw [hright, List.map_append, suffix_append_iff]
  refine ⟨.inl, ?_⟩
  rintro (h | ⟨part, hpart, hsuffix, heq⟩)
  · exact h
  · obtain ⟨d, rest, rfl⟩ := List.exists_cons_of_ne_nil hpart
    obtain ⟨c, hc, rfl⟩ := List.mem_map.mp (hsuffix.subset List.mem_cons_self)
    exact absurd (heq ▸ List.mem_append_left _ List.mem_cons_self) (hword c (hbefore c hc))

end Trimming

/-! ### Lower case -/

/-- What a character is in lower case: ASCII letters have their case of ASCII, the Kelvin sign is a
letter of ASCII, the capital I with a dot is two characters, and nothing else becomes ASCII. -/
inductive Lowered : Char → List Char → Prop
  | ascii {c : Char} (h : c.toNat < 128) : Lowered c [foldCase c]
  | kelvin : Lowered (Char.ofNat 0x212A) ['k']
  | dotted : Lowered (Char.ofNat 0x130) ['i', Char.ofNat 0x307]
  | other {c : Char} {cs : List Char} (h : 128 ≤ c.toNat) (hne : cs ≠ [])
      (hcs : ∀ d ∈ cs, 128 ≤ d.toNat) : Lowered c cs

/-- A function that lowers the characters of a text. What it makes of one may depend on those around
it, as for the sigma at the end of a word. -/
structure LowerCase where
  lower : List Char → List Char
  pieces : ∀ text, ∃ cs, List.Forall₂ Lowered text cs ∧ lower text = cs.flatten

/-- A word of ASCII in which there is no letter that other characters become. -/
def Plain (word : List Char) : Prop := ∀ c ∈ word, c.toNat < 128 ∧ c ≠ 'k'

instance (word : List Char) : Decidable (Plain word) :=
  inferInstanceAs (Decidable (∀ c ∈ word, _))

theorem foldCase_ascii {c : Char} (h : (foldCase c).toNat < 128) : c.toNat < 128 := by
  rw [foldCase] at h
  split at h
  · rename_i hupper
    have hz : c.toNat ≤ 'Z'.toNat := hupper.2
    have hvalue : 'Z'.toNat = 90 := rfl
    omega
  · exact h

section Lowering

variable {text word part : List Char} {c : Char} {cs : List Char} {pieces : List (List Char)}

/-- A plain end of what a character becomes is the character in the case of ASCII. -/
theorem Lowered.plain (h : Lowered c cs) (hpart : part ≠ []) (hsuffix : part <:+ cs)
    (hplain : Plain part) : part = [foldCase c] := by
  have hlast : ∀ d, cs.getLast? = some d → d.toNat < 128 ∧ d ≠ 'k' := by
    intro d hd
    obtain ⟨lead, rfl⟩ := hsuffix
    rw [List.getLast?_append_of_ne_nil lead hpart] at hd
    exact hplain d (List.mem_of_getLast? hd)
  cases h with
  | ascii hc => exact eq_singleton_of_suffix hpart hsuffix
  | kelvin => exact absurd rfl (hlast 'k' rfl).2
  | dotted => exact absurd (hlast (Char.ofNat 0x307) rfl).1 (by decide)
  | other hc hne hcs =>
    obtain ⟨d, hd⟩ := Option.isSome_iff_exists.mp (List.getLast?_isSome.mpr hne)
    have hge := hcs d (List.mem_of_getLast? hd)
    have hlt := (hlast d hd).1
    omega

/-- What becomes of a character that has a plain letter in the case of ASCII. -/
theorem Lowered.of_plain (h : Lowered c cs) (hc : (foldCase c).toNat < 128) :
    cs = [foldCase c] := by
  have hascii := foldCase_ascii hc
  cases h with
  | ascii => rfl
  | kelvin => exact absurd hascii (by decide)
  | dotted => exact absurd hascii (by decide)
  | other hge => omega

section

variable (h : List.Forall₂ Lowered text pieces) (hword : Plain word)
include h hword

theorem flatten_eq_iff : pieces.flatten = word ↔ text.map foldCase = word := by
  induction h generalizing word with
  | nil => rfl
  | @cons c cs text pieces hhead _ ih =>
    constructor
    · rintro rfl
      rw [List.flatten_cons] at hword ⊢
      have hcs : Plain cs := fun d hd => hword d (List.mem_append_left _ hd)
      have hrest : Plain pieces.flatten := fun d hd => hword d (List.mem_append_right _ hd)
      have hne : cs ≠ [] := by cases hhead <;> simp_all
      rw [hhead.plain hne (List.suffix_refl cs) hcs, List.map_cons, (ih hrest).mp rfl]
      rfl
    · rintro rfl
      rw [List.map_cons] at hword ⊢
      have hrest : Plain (text.map foldCase) := fun d hd => hword d (List.mem_cons_of_mem _ hd)
      rw [List.flatten_cons, (ih hrest).mpr rfl,
        hhead.of_plain (hword _ List.mem_cons_self).1]
      rfl

theorem suffix_flatten_iff : word <:+ pieces.flatten ↔ word <:+ text.map foldCase := by
  induction h with
  | nil => rfl
  | @cons c cs text pieces hhead htail ih =>
    rw [List.flatten_cons, List.map_cons, ← List.singleton_append (x := foldCase c),
      suffix_append_iff, suffix_append_iff, ih]
    refine or_congr Iff.rfl ⟨?_, ?_⟩
    · rintro ⟨part, hpart, hsuffix, rfl⟩
      have hplain : Plain part := fun d hd => hword d (List.mem_append_left _ hd)
      have hrest : Plain pieces.flatten := fun d hd => hword d (List.mem_append_right _ hd)
      refine ⟨part, hpart, ?_, by rw [(flatten_eq_iff htail hrest).mp rfl]⟩
      rw [hhead.plain hpart hsuffix hplain]
    · rintro ⟨part, hpart, hsuffix, rfl⟩
      have hpart' := eq_singleton_of_suffix hpart hsuffix
      have hrest : Plain (text.map foldCase) := fun d hd => hword d (List.mem_append_right _ hd)
      have hc : (foldCase c).toNat < 128 := (hword _ (by rw [hpart']; exact List.mem_cons_self)).1
      refine ⟨part, hpart, ?_, by rw [(flatten_eq_iff htail hrest).mpr rfl]⟩
      rw [hhead.of_plain hc, hpart']

end

namespace LowerCase

variable (lowerCase : LowerCase)

/-- **A text is a plain word** in lower case when it is up to the case of ASCII letters. -/
theorem eq_iff (hword : Plain word) : lowerCase.lower text = word ↔ text.map foldCase = word := by
  obtain ⟨pieces, h, heq⟩ := lowerCase.pieces text
  rw [heq, flatten_eq_iff h hword]

/-- **A text ends in a plain word** in lower case when it does up to the case of ASCII letters. -/
theorem suffix_iff (hword : Plain word) :
    word <:+ lowerCase.lower text ↔ word <:+ text.map foldCase := by
  obtain ⟨pieces, h, heq⟩ := lowerCase.pieces text
  rw [heq, suffix_flatten_iff h hword]

end LowerCase

end Lowering

end Words
