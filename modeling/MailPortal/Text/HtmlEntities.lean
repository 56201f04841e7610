import MailPortal.Lib.Replace
import MailPortal.Platform.JavaScript

/-!
# HTML Entities

`decodeHtmlEntities` turns the entities of prose into plain text, in three passes over the whole
string: the named entities except `&amp;`, the numeric ones, and `&amp;` at last. Texts are lists of
UTF-16 code units here, so that every string of the language is one.

The name of an entity is looked up in a plain object. Such an object has the properties of
`Object.prototype` besides its own, and where the name is one of these (only `constructor` has no
capital letter) the entity is replaced by the text of a built-in function.

A string is written with references piece by piece (`Piece`): code units other than `&` as they are,
any code point as one of its references, and sequences whose name is not known. Decoding gives the
meaning of the pieces back, exactly when (`DecodedOnce`) no unknown name is a property of every
object, and no ampersand with a numeric reference comes before `amp;`: the second pass writes that
ampersand, and the third one reads it again.

Main results:

* `decodeHtmlEntities_spelling` : when decoding removes one level of escaping.
-/

namespace MailPortal.Text

open Replace

/-! ### Characters -/

/-- `&`. -/
def AMP : ℕ := 0x26

/-- `;`. -/
def SEMI : ℕ := 0x3B

/-- `[a-zA-Z]`. -/
def isLetter (u : ℕ) : Bool := (0x41 ≤ u && u ≤ 0x5A) || (0x61 ≤ u && u ≤ 0x7A)

/-- `[0-9]`. -/
def isDecimal (u : ℕ) : Bool := 0x30 ≤ u && u ≤ 0x39

/-- `[0-9a-fA-F]`. -/
def isHexadecimal (u : ℕ) : Bool :=
  isDecimal u || (0x41 ≤ u && u ≤ 0x46) || (0x61 ≤ u && u ≤ 0x66)

/-- `[a-zA-Z0-9]`. -/
def isNameUnit (u : ℕ) : Bool := isLetter u || isDecimal u

/-- `toLowerCase` on the letters of a name. -/
def toLowerCase (name : List ℕ) : List ℕ :=
  name.map fun u => if 0x41 ≤ u ∧ u ≤ 0x5A then u + 0x20 else u

/-- The value of a digit. -/
def digitValue (u : ℕ) : ℕ :=
  if u ≤ 0x39 then u - 0x30 else if u ≤ 0x46 then u - 0x37 else u - 0x57

/-- `[a-zA-Z][a-zA-Z0-9]*`. -/
def isName (name : List ℕ) : Bool := name.head?.any isLetter && name.all isNameUnit

/-! ### The vocabulary -/

/-- The entities with a name, `amp` aside. -/
def NAMED_ENTITIES : List (String × String) :=
  [("nbsp", " "), ("lt", "<"), ("gt", ">"), ("quot", "\""), ("apos", "'"), ("mdash", "—"),
    ("ndash", "–"), ("lsquo", "‘"), ("rsquo", "’"), ("ldquo", "“"), ("rdquo", "”"),
    ("hellip", "…"), ("bull", "•"), ("middot", "·"), ("copy", "©"), ("reg", "®"), ("trade", "™")]

/-- The properties of `Object.prototype` whose names have letters only, with the texts of the
functions that they hold. -/
def OBJECT_PROTOTYPE : List (String × String) :=
  [("constructor", "function Object() \x7b [native code] \x7d"),
    ("hasOwnProperty", "function hasOwnProperty() \x7b [native code] \x7d"),
    ("isPrototypeOf", "function isPrototypeOf() \x7b [native code] \x7d"),
    ("propertyIsEnumerable", "function propertyIsEnumerable() \x7b [native code] \x7d"),
    ("toLocaleString", "function toLocaleString() \x7b [native code] \x7d"),
    ("toString", "function toString() \x7b [native code] \x7d"),
    ("valueOf", "function valueOf() \x7b [native code] \x7d")]

/-- The text under a key. -/
def textAt (table : List (String × String)) (key : List ℕ) : Option (List ℕ) :=
  (table.find? fun entry => units entry.1 = key).map fun entry => units entry.2

/-- `NAMED_ENTITIES[key]` as text: an own property, else one of the prototype. -/
def namedEntity (key : List ℕ) : Option (List ℕ) :=
  (textAt NAMED_ENTITIES key).or (textAt OBJECT_PROTOTYPE key)

/-- The code point of a numeric reference; none where `String.fromCodePoint` would throw or give
half of a surrogate pair. -/
def decodedCodePoint (digits : List ℕ) (radix : ℕ) : Option (List ℕ) :=
  let code := digits.foldl (fun n u => n * radix + digitValue u) 0
  if 0x10FFFF < code then none
  else if 0xD800 ≤ code ∧ code ≤ 0xDFFF then none
  else some (utf16Units (Char.ofNat code))

/-! ### The passes -/

/-- What stands between an opening and the next semicolon, when it is a run of a class. -/
def between (opening : List ℕ) (isClass : ℕ → Bool) (text : List ℕ) : Option (List ℕ) :=
  let run := (text.drop opening.length).takeWhile isClass
  if opening <+: text ∧ (text.drop (opening.length + run.length)).head? = some SEMI then some run
  else none

/-- `/&([a-zA-Z][a-zA-Z0-9]*);/g` -/
def namedRule : Rule ℕ := fun text =>
  match between [AMP] isNameUnit text with
  | none => none
  | some name =>
      if isName name then
        some ((namedEntity (toLowerCase name)).getD (AMP :: name ++ [SEMI]), name.length + 1)
      else none

/-- The digits of a hexadecimal reference, with the letter in front of them. -/
def hexadecimalDigits (text : List ℕ) : Option (List ℕ) :=
  (between (units "&#x") isHexadecimal text).or (between (units "&#X") isHexadecimal text)

/-- `/&#(?:([0-9]{1,7})|[xX]([0-9a-fA-F]{1,6}));/g` -/
def numericRule : Rule ℕ := fun text =>
  match between (units "&#") isDecimal text with
  | some dec =>
      if 1 ≤ dec.length ∧ dec.length ≤ 7 then
        some ((decodedCodePoint dec 10).getD (units "&#" ++ dec ++ [SEMI]), dec.length + 2)
      else none
  | none =>
      match hexadecimalDigits text with
      | some hex =>
          if 1 ≤ hex.length ∧ hex.length ≤ 6 then
            some ((decodedCodePoint hex 16).getD (text.take 3 ++ hex ++ [SEMI]), hex.length + 3)
          else none
      | none => none

/-- `/&amp;/g` -/
def ampersandRule : Rule ℕ := fun text =>
  if units "&amp;" <+: text then some ([AMP], 4) else none

/-- Decode the entities that reach prose. -/
def decodeHtmlEntities (value : List ℕ) : List ℕ :=
  replaceAll ampersandRule (replaceAll numericRule (replaceAll namedRule value))

example : decodeHtmlEntities (units "&amp;lt; &#x2014; &QUOT;") = units "&lt; — \"" := by decide

/-! ### Spelling with references -/

/-- A piece of a text that is written with references. -/
inductive Piece
  /-- A code unit as it is. -/
  | literal (unit : ℕ) (hunit : unit ≠ AMP)
  /-- `&amp;`. -/
  | ampersand
  /-- A reference by name. -/
  | named (name text : List ℕ) (hname : isName name = true)
      (htext : textAt NAMED_ENTITIES (toLowerCase name) = some text)
  /-- A decimal reference. -/
  | decimal (digits text : List ℕ) (hdigits : digits.all isDecimal = true)
      (hlength : 1 ≤ digits.length ∧ digits.length ≤ 7)
      (htext : decodedCodePoint digits 10 = some text)
  /-- A hexadecimal reference. -/
  | hexadecimal (capital : Bool) (digits text : List ℕ) (hdigits : digits.all isHexadecimal = true)
      (hlength : 1 ≤ digits.length ∧ digits.length ≤ 6)
      (htext : decodedCodePoint digits 16 = some text)
  /-- What looks like a reference, by a name that is not in the vocabulary. -/
  | unknown (name : List ℕ) (hname : isName name = true)
      (habsent : textAt NAMED_ENTITIES (toLowerCase name) = none) (hamp : name ≠ units "amp")

variable {pieces : List Piece}

namespace Piece

/-- How a piece is written. -/
def spelling : Piece → List ℕ
  | literal unit _ => [unit]
  | ampersand => units "&amp;"
  | named name _ _ _ => AMP :: name ++ [SEMI]
  | decimal digits _ _ _ _ => units "&#" ++ digits ++ [SEMI]
  | hexadecimal capital digits _ _ _ _ =>
      (if capital then units "&#X" else units "&#x") ++ digits ++ [SEMI]
  | unknown name _ _ _ => AMP :: name ++ [SEMI]

/-- What a piece stands for. -/
def meaning : Piece → List ℕ
  | literal unit _ => [unit]
  | ampersand => [AMP]
  | named _ text _ _ => text
  | decimal _ text _ _ _ => text
  | hexadecimal _ _ text _ _ _ => text
  | unknown name _ _ _ => AMP :: name ++ [SEMI]

/-- An ampersand with a numeric reference. -/
def NumericAmpersand : Piece → Prop
  | decimal _ text _ _ _ => text = [AMP]
  | hexadecimal _ _ text _ _ _ => text = [AMP]
  | _ => False

/-- An unknown name that every object has a property of. -/
def Inherited : Piece → Prop
  | unknown name _ _ _ => textAt OBJECT_PROTOTYPE (toLowerCase name) ≠ none
  | _ => False

/-- A piece after the pass over the names. -/
def afterNames : Piece → List ℕ
  | named _ text _ _ => text
  | unknown name _ _ _ => (textAt OBJECT_PROTOTYPE (toLowerCase name)).getD (AMP :: name ++ [SEMI])
  | piece => piece.spelling

/-- A piece after the passes over the names and the numbers. -/
def afterNumbers : Piece → List ℕ
  | decimal _ text _ _ _ => text
  | hexadecimal _ _ text _ _ _ => text
  | piece => piece.afterNames

end Piece

/-- A text in pieces, as it is written. -/
def spelling (pieces : List Piece) : List ℕ := pieces.flatMap Piece.spelling

/-- The text that is written. -/
def meaning (pieces : List Piece) : List ℕ := pieces.flatMap Piece.meaning

/-- No unknown name is a property of every object, and no ampersand with a numeric reference comes
before `amp;`. -/
structure DecodedOnce (pieces : List Piece) : Prop where
  unknown : ∀ piece ∈ pieces, ¬ piece.Inherited
  numeric : ∀ piece after, piece :: after <:+ pieces → piece.NumericAmpersand →
    ¬ units "amp;" <+: meaning after

/-! ### The pass over the names -/

section

variable {opening run rest name text digits : List ℕ} {isClass : ℕ → Bool} {u : ℕ}

theorem between_eq (opening : List ℕ) (hrun : run.all isClass = true)
    (hsemi : isClass SEMI = false) :
    between opening isClass (opening ++ (run ++ SEMI :: rest)) = some run := by
  have htake : (run ++ SEMI :: rest).takeWhile isClass = run := by
    rw [List.takeWhile_append_of_pos (List.all_eq_true.mp hrun),
      List.takeWhile_cons_of_neg (by rw [hsemi]; exact Bool.false_ne_true), List.append_nil]
  have hdrop : (opening ++ (run ++ SEMI :: rest)).drop (opening.length + run.length) =
      SEMI :: rest := by
    rw [← List.drop_drop, List.drop_left, List.drop_left]
  simp only [between, List.drop_left, htake, hdrop]
  exact if_pos ⟨List.prefix_append _ _, rfl⟩

theorem between_of_not_start (h : ¬ opening <+: text) : between opening isClass text = none :=
  if_neg fun hboth => h hboth.1

/-- A run that ends at once, at something else than a semicolon. -/
theorem between_of_head (opening : List ℕ) (hu : isClass u = false) (hsemi : u ≠ SEMI) :
    between opening isClass (opening ++ u :: rest) = none := by
  have htake : (u :: rest).takeWhile isClass = [] :=
    List.takeWhile_cons_of_neg (by rw [hu]; exact Bool.false_ne_true)
  simp only [between, List.drop_left, htake, List.length_nil, Nat.add_zero, List.head?_cons]
  exact if_neg fun hboth => hsemi (Option.some.inj hboth.2)

theorem ne_amp_of_isNameUnit (h : isNameUnit u = true) : u ≠ AMP := by
  rintro rfl
  exact absurd h (by decide)

theorem isName_units (h : isName name = true) : ∀ u ∈ name, isNameUnit u = true :=
  List.all_eq_true.mp (Bool.and_eq_true .. ▸ h : _ ∧ _).2

/-- A name begins with a letter. -/
theorem isName_cons (h : isName name = true) :
    ∃ u rest, name = u :: rest ∧ isLetter u = true := by
  cases name with
  | nil => cases h
  | cons u rest => exact ⟨u, rest, rfl, (Bool.and_eq_true .. ▸ h : _ ∧ _).1⟩

theorem namedRule_of_ne (hu : u ≠ AMP) (rest : List ℕ) : namedRule (u :: rest) = none := by
  rw [namedRule, between_of_not_start]
  exact fun h => hu (List.cons_prefix_cons.mp h).1.symm

/-- A name between `&` and `;` is looked up. -/
theorem names_reference (name : List ℕ) (hname : isName name = true) (rest : List ℕ) :
    replaceAll namedRule ((AMP :: name ++ [SEMI]) ++ rest) =
      (namedEntity (toLowerCase name)).getD (AMP :: name ++ [SEMI]) ++
        replaceAll namedRule rest := by
  have hbetween : between [AMP] isNameUnit (AMP :: (name ++ SEMI :: rest)) = some name :=
    between_eq [AMP] (List.all_eq_true.mpr (isName_units hname)) (by decide)
  have hrule : namedRule (AMP :: ((name ++ [SEMI]) ++ rest)) =
      some ((namedEntity (toLowerCase name)).getD (AMP :: name ++ [SEMI]),
        (name ++ [SEMI]).length) := by
    rw [namedRule, List.append_assoc, List.singleton_append, hbetween]
    simp only [hname, if_true, List.length_append, List.length_singleton]
  exact replaceAll_match hrule

/-- Numeric references are left to the next pass. -/
theorem names_number (digits : List ℕ) (hdigits : ∀ u ∈ digits, u ≠ AMP) (rest : List ℕ) :
    replaceAll namedRule (AMP :: 0x23 :: digits ++ rest) =
      AMP :: 0x23 :: digits ++ replaceAll namedRule rest := by
  have hrule : namedRule (AMP :: (0x23 :: digits ++ rest)) = none := by
    rw [namedRule, show between [AMP] isNameUnit (AMP :: (0x23 :: digits ++ rest)) = none from
      between_of_head [AMP] (by decide) (by decide)]
  have hcopy : ∀ u ∈ 0x23 :: digits, ∀ rest, namedRule (u :: rest) = none := by
    intro u hu
    rcases List.mem_cons.mp hu with rfl | hu
    · exact namedRule_of_ne (by decide)
    · exact namedRule_of_ne (hdigits u hu)
  calc replaceAll namedRule (AMP :: (0x23 :: digits ++ rest))
      = AMP :: replaceAll namedRule (0x23 :: digits ++ rest) := replaceAll_cons hrule
    _ = AMP :: (0x23 :: digits ++ replaceAll namedRule rest) := by
        rw [replaceAll_append_of_none hcopy]

theorem ne_amp_of_digits {isDigit : ℕ → Bool} (hamp : isDigit AMP = false)
    (hdigits : digits.all isDigit = true) : ∀ u ∈ digits ++ [SEMI], u ≠ AMP := by
  rintro u hu rfl
  rcases List.mem_append.mp hu with hu | hu
  · exact absurd (List.all_eq_true.mp hdigits AMP hu) (by rw [hamp]; exact Bool.false_ne_true)
  · exact absurd (List.mem_singleton.mp hu) (by decide)

/-- The pass over the names, at one piece. -/
theorem names_piece (piece : Piece) (rest : List ℕ) :
    replaceAll namedRule (piece.spelling ++ rest) =
      piece.afterNames ++ replaceAll namedRule rest := by
  cases piece with
  | literal unit hunit =>
      exact replaceAll_cons (namedRule_of_ne hunit rest)
  | ampersand =>
      have hunknown : namedEntity (toLowerCase (units "amp")) = none := by decide
      have h := names_reference (units "amp") (by decide) rest
      rw [hunknown] at h
      exact h
  | named name text hname htext =>
      have h := names_reference name hname rest
      rw [namedEntity, htext] at h
      exact h
  | decimal digits text hdigits =>
      have h := names_number _ (ne_amp_of_digits (by decide) hdigits) rest
      exact h
  | hexadecimal capital digits text hdigits =>
      have hne := ne_amp_of_digits (by decide) hdigits
      cases capital with
      | false =>
          refine names_number (0x78 :: (digits ++ [SEMI])) (fun u hu => ?_) rest
          rcases List.mem_cons.mp hu with rfl | hu
          · decide
          · exact hne u hu
      | true =>
          refine names_number (0x58 :: (digits ++ [SEMI])) (fun u hu => ?_) rest
          rcases List.mem_cons.mp hu with rfl | hu
          · decide
          · exact hne u hu
  | unknown name hname habsent =>
      have h := names_reference name hname rest
      rw [namedEntity, habsent] at h
      exact h

/-! ### The pass over the numbers -/

theorem numericRule_of_not_start (h : ¬ [AMP, 0x23] <+: text) : numericRule text = none := by
  have hopening : ∀ mark : ℕ, ¬ [AMP, 0x23, mark] <+: text := fun mark hprefix =>
    h ((List.prefix_append [AMP, 0x23] [mark]).trans hprefix)
  rw [numericRule, show between (units "&#") isDecimal text = none from between_of_not_start h,
    hexadecimalDigits,
    show between (units "&#x") isHexadecimal text = none from
      between_of_not_start (hopening 0x78),
    show between (units "&#X") isHexadecimal text = none from
      between_of_not_start (hopening 0x58)]
  rfl

theorem numericRule_of_ne (hu : u ≠ AMP) (rest : List ℕ) : numericRule (u :: rest) = none :=
  numericRule_of_not_start fun h => hu (List.cons_prefix_cons.mp h).1.symm

/-- What looks like a reference by name is left alone. -/
theorem numbers_reference (name : List ℕ) (hname : isName name = true) (rest : List ℕ) :
    replaceAll numericRule ((AMP :: name ++ [SEMI]) ++ rest) =
      (AMP :: name ++ [SEMI]) ++ replaceAll numericRule rest := by
  have hcopy : ∀ u ∈ name ++ [SEMI], ∀ rest, numericRule (u :: rest) = none := by
    intro u hu
    rcases List.mem_append.mp hu with hu | hu
    · exact numericRule_of_ne (ne_amp_of_isNameUnit (isName_units hname u hu))
    · exact List.mem_singleton.mp hu ▸ numericRule_of_ne (by decide)
  have hrule : numericRule (AMP :: ((name ++ [SEMI]) ++ rest)) = none := by
    obtain ⟨u, name, rfl, hletter⟩ := isName_cons hname
    refine numericRule_of_not_start fun h => ?_
    obtain rfl : (0x23 : ℕ) = u := (List.cons_prefix_cons.mp (List.cons_prefix_cons.mp h).2).1
    exact absurd hletter (by decide)
  rw [List.cons_append, List.cons_append, replaceAll_cons hrule, replaceAll_append_of_none hcopy,
    List.cons_append]

theorem numbers_decimal (hdigits : digits.all isDecimal = true)
    (hlength : 1 ≤ digits.length ∧ digits.length ≤ 7)
    (htext : decodedCodePoint digits 10 = some text) (rest : List ℕ) :
    replaceAll numericRule ((units "&#" ++ digits ++ [SEMI]) ++ rest) =
      text ++ replaceAll numericRule rest := by
  have hbetween : between (units "&#") isDecimal (units "&#" ++ (digits ++ SEMI :: rest)) =
      some digits := between_eq (units "&#") hdigits (by decide)
  have hrule : numericRule (AMP :: ((0x23 :: digits ++ [SEMI]) ++ rest)) =
      some (text, (0x23 :: digits ++ [SEMI]).length) := by
    have hwhole : AMP :: ((0x23 :: digits ++ [SEMI]) ++ rest) =
        units "&#" ++ (digits ++ SEMI :: rest) := by
      rw [List.append_assoc]
      rfl
    rw [hwhole, numericRule, hbetween]
    simp only [hlength, and_self, if_true, htext, Option.getD_some, List.cons_append,
      List.length_cons, List.length_append, List.length_nil]
  exact replaceAll_match hrule

theorem numbers_hexadecimal {capital : Bool} (hdigits : digits.all isHexadecimal = true)
    (hlength : 1 ≤ digits.length ∧ digits.length ≤ 6)
    (htext : decodedCodePoint digits 16 = some text) (rest : List ℕ) :
    replaceAll numericRule
        (((if capital then units "&#X" else units "&#x") ++ digits ++ [SEMI]) ++ rest) =
      text ++ replaceAll numericRule rest := by
  set mark : ℕ := if capital then 0x58 else 0x78 with hmark
  have hopening : (if capital then units "&#X" else units "&#x") = [AMP, 0x23, mark] := by
    cases capital <;> rfl
  have hdecimal : between (units "&#") isDecimal (AMP :: 0x23 :: mark :: (digits ++ SEMI :: rest)) =
      none := by
    refine between_of_head (units "&#") ?_ ?_ <;> cases capital <;> decide
  have hhexadecimal : hexadecimalDigits (AMP :: 0x23 :: mark :: (digits ++ SEMI :: rest)) =
      some digits := by
    have hfound : between [AMP, 0x23, mark] isHexadecimal
        (AMP :: 0x23 :: mark :: (digits ++ SEMI :: rest)) = some digits :=
      between_eq [AMP, 0x23, mark] hdigits (by decide)
    rw [hexadecimalDigits]
    cases capital with
    | false => exact (congrArg (Option.or · _) hfound).trans rfl
    | true =>
        have hnot : between (units "&#x") isHexadecimal
            (AMP :: 0x23 :: mark :: (digits ++ SEMI :: rest)) = none :=
          between_of_not_start fun h => absurd (List.cons_prefix_cons.mp
            (List.cons_prefix_cons.mp (List.cons_prefix_cons.mp h).2).2).1 (by decide)
        rw [hnot]
        exact hfound
  have hrule : numericRule (AMP :: ((0x23 :: mark :: digits ++ [SEMI]) ++ rest)) =
      some (text, (0x23 :: mark :: digits ++ [SEMI]).length) := by
    have hwhole : AMP :: ((0x23 :: mark :: digits ++ [SEMI]) ++ rest) =
        AMP :: 0x23 :: mark :: (digits ++ SEMI :: rest) := by
      rw [List.append_assoc]
      rfl
    rw [hwhole, numericRule, hdecimal, hhexadecimal]
    simp only [hlength, and_self, if_true, htext, Option.getD_some, List.cons_append,
      List.length_cons, List.length_append, List.length_nil]
  rw [hopening]
  exact replaceAll_match hrule

theorem textAt_mem {table : List (String × String)} (h : textAt table name = some text) :
    ∃ entry ∈ table, units entry.1 = name ∧ units entry.2 = text := by
  obtain ⟨entry, hfind, rfl⟩ := Option.map_eq_some_iff.mp h
  exact ⟨entry, List.mem_of_find?_eq_some hfind,
    of_decide_eq_true (List.find?_some hfind :), rfl⟩

/-- The entities stand for one code unit each, which is no ampersand. -/
theorem named_text (h : textAt NAMED_ENTITIES name = some text) : ∃ u, text = [u] ∧ u ≠ AMP := by
  obtain ⟨entry, hmem, -, rfl⟩ := textAt_mem h
  have hall : ∀ entry ∈ NAMED_ENTITIES, (units entry.2).length = 1 ∧ AMP ∉ units entry.2 := by
    decide
  obtain ⟨hlength, hamp⟩ := hall entry hmem
  obtain ⟨u, hu⟩ := List.length_eq_one_iff.mp hlength
  exact ⟨u, hu, fun h => hamp (by rw [hu, h]; exact List.mem_singleton_self _)⟩

/-- The text of a built-in function has no ampersand, and begins like `function`. -/
theorem inherited_text (h : textAt OBJECT_PROTOTYPE name = some text) :
    AMP ∉ text ∧ ∃ rest, text = 0x66 :: rest := by
  obtain ⟨entry, hmem, -, rfl⟩ := textAt_mem h
  have hall : ∀ entry ∈ OBJECT_PROTOTYPE,
      AMP ∉ units entry.2 ∧ (units entry.2).head? = some 0x66 := by decide
  obtain ⟨hamp, hhead⟩ := hall entry hmem
  exact ⟨hamp, _, (List.head?_eq_some_iff.mp hhead).choose_spec⟩

/-- The pass over the numbers, at one piece. -/
theorem numbers_piece (piece : Piece) (rest : List ℕ) :
    replaceAll numericRule (piece.afterNames ++ rest) =
      piece.afterNumbers ++ replaceAll numericRule rest := by
  have hcopy : ∀ text : List ℕ, AMP ∉ text → replaceAll numericRule (text ++ rest) =
      text ++ replaceAll numericRule rest := fun text hamp =>
    replaceAll_append_of_none fun u hu => numericRule_of_ne fun h => hamp (h ▸ hu)
  cases piece with
  | literal unit hunit => exact hcopy [unit] fun h => hunit (List.mem_singleton.mp h).symm
  | ampersand => exact numbers_reference (units "amp") (by decide) rest
  | named name text hname htext =>
      obtain ⟨u, rfl, hu⟩ := named_text htext
      exact hcopy [u] fun h => hu (List.mem_singleton.mp h).symm
  | decimal digits text hdigits hlength htext =>
      exact numbers_decimal hdigits hlength htext rest
  | hexadecimal capital digits text hdigits hlength htext =>
      exact numbers_hexadecimal hdigits hlength htext rest
  | unknown name hname =>
      change replaceAll numericRule ((textAt OBJECT_PROTOTYPE (toLowerCase name)).getD _ ++ rest) =
        (textAt OBJECT_PROTOTYPE (toLowerCase name)).getD _ ++ _
      cases hinherited : textAt OBJECT_PROTOTYPE (toLowerCase name) with
      | none => exact numbers_reference name hname rest
      | some text => exact hcopy text (inherited_text hinherited).1

/-- The first two passes go piece by piece. -/
theorem afterNumbers_eq (pieces : List Piece) :
    replaceAll numericRule (replaceAll namedRule (spelling pieces)) =
      pieces.flatMap Piece.afterNumbers := by
  have hnames : replaceAll namedRule (spelling pieces) = pieces.flatMap Piece.afterNames :=
    replaceAll_flatMap fun piece _ => names_piece piece
  rw [hnames, replaceAll_flatMap fun piece _ => numbers_piece piece]

/-! ### The pass over the ampersands -/

theorem ampersandRule_of_not_start (h : ¬ units "&amp;" <+: text) : ampersandRule text = none :=
  if_neg h

theorem ampersandRule_of_ne (hu : u ≠ AMP) (rest : List ℕ) : ampersandRule (u :: rest) = none :=
  ampersandRule_of_not_start fun h => hu (List.cons_prefix_cons.mp h).1.symm

theorem ampersands_amp (rest : List ℕ) :
    replaceAll ampersandRule (units "&amp;" ++ rest) = AMP :: replaceAll ampersandRule rest := by
  have hrule : ampersandRule (AMP :: (units "amp;" ++ rest)) =
      some ([AMP], (units "amp;").length) := if_pos (List.prefix_append (units "&amp;") rest)
  exact replaceAll_match hrule

/-- An ampersand that `amp;` does not follow. -/
theorem ampersands_single (h : ¬ units "amp;" <+: rest) :
    replaceAll ampersandRule (AMP :: rest) = AMP :: replaceAll ampersandRule rest :=
  replaceAll_cons (ampersandRule_of_not_start fun hprefix => h (List.cons_prefix_cons.mp hprefix).2)

/-- A name other than `amp` does not go on like `amp;`. -/
theorem name_not_amp (hname : isName name = true) (hamp : name ≠ units "amp") (rest : List ℕ) :
    ¬ units "amp;" <+: name ++ SEMI :: rest := by
  have hfirst : ∀ word : List ℕ, (∀ u ∈ word, u ≠ SEMI) → ∀ tail,
      (word ++ SEMI :: tail).takeWhile (fun u => u ≠ SEMI) = word := by
    intro word hword tail
    rw [List.takeWhile_append_of_pos fun u hu => decide_eq_true (hword u hu),
      List.takeWhile_cons_of_neg (by simp), List.append_nil]
  have hsemi : ∀ u ∈ name, u ≠ SEMI := by
    rintro u hu rfl
    exact absurd (isName_units hname SEMI hu) (by decide)
  rintro ⟨after, h⟩
  have hsplit : units "amp" ++ SEMI :: after = name ++ SEMI :: rest := h
  refine hamp ?_
  rw [← hfirst name hsemi rest, ← hsplit, hfirst (units "amp") (by decide)]

/-- The code point of a number is the ampersand or has none. -/
theorem decodedCodePoint_text {radix : ℕ} (h : decodedCodePoint digits radix = some text) :
    text = [AMP] ∨ AMP ∉ text := by
  simp only [decodedCodePoint] at h
  split at h
  · cases h
  · split at h
    · cases h
    · cases h
      rw [utf16Units]
      split
      · by_cases hcode : AMP = (Char.ofNat
            (digits.foldl (fun n u => n * radix + digitValue u) 0)).toNat
        · exact .inl (by rw [← hcode])
        · exact .inr fun hmem => hcode (List.mem_singleton.mp hmem)
      · refine .inr fun hmem => ?_
        simp only [List.mem_cons, List.not_mem_nil, or_false, AMP] at hmem
        omega

/-- What the third pass meets. -/
inductive Met : (piece : Piece) → Prop
  | plain {piece : Piece} (hafter : piece.afterNumbers = piece.meaning)
      (hamp : AMP ∉ piece.meaning) (hnumeric : ¬ piece.NumericAmpersand)
      (hinherited : ¬ piece.Inherited) : Met piece
  | ampersand : Met .ampersand
  | numeric {piece : Piece} (hafter : piece.afterNumbers = [AMP]) (hmeaning : piece.meaning = [AMP])
      (hnumeric : piece.NumericAmpersand) (hinherited : ¬ piece.Inherited) : Met piece
  | kept {piece : Piece} (name : List ℕ) (hafter : piece.afterNumbers = AMP :: (name ++ [SEMI]))
      (hmeaning : piece.meaning = AMP :: (name ++ [SEMI])) (hname : isName name = true)
      (hamp : name ≠ units "amp") (hnumeric : ¬ piece.NumericAmpersand)
      (hinherited : ¬ piece.Inherited) : Met piece
  | inherited {piece : Piece} {rest rest' : List ℕ} (hafter : piece.afterNumbers = 0x66 :: rest)
      (hmeaning : piece.meaning = AMP :: rest') (hinherited : piece.Inherited) : Met piece

theorem met (piece : Piece) : Met piece := by
  cases piece with
  | literal unit hunit =>
      exact .plain rfl (fun h => hunit (List.mem_singleton.mp h).symm) id id
  | ampersand => exact .ampersand
  | named name text hname htext =>
      obtain ⟨u, rfl, hu⟩ := named_text htext
      exact .plain rfl (fun h => hu (List.mem_singleton.mp h).symm) id id
  | decimal digits text hdigits hlength htext =>
      by_cases h : text = [AMP]
      · exact .numeric h h h id
      · exact .plain rfl ((decodedCodePoint_text htext).resolve_left h) h id
  | hexadecimal capital digits text hdigits hlength htext =>
      by_cases h : text = [AMP]
      · exact .numeric h h h id
      · exact .plain rfl ((decodedCodePoint_text htext).resolve_left h) h id
  | unknown name hname habsent hamp =>
      cases h : textAt OBJECT_PROTOTYPE (toLowerCase name) with
      | none =>
          refine .kept name ?_ rfl hname hamp id fun hinherited => hinherited h
          exact congrArg (Option.getD · _) h
      | some text =>
          obtain ⟨-, rest, rfl⟩ := inherited_text h
          have hafter : (Piece.unknown name hname habsent hamp).afterNumbers = 0x66 :: rest :=
            congrArg (Option.getD · _) h
          refine .inherited hafter rfl fun hnone => ?_
          rw [h] at hnone
          cases hnone

/-- What the third pass makes of the pieces. -/
def decoded (pieces : List Piece) : List ℕ :=
  replaceAll ampersandRule (pieces.flatMap Piece.afterNumbers)

theorem ampersands_copy (hamp : AMP ∉ text) (rest : List ℕ) :
    replaceAll ampersandRule (text ++ rest) = text ++ replaceAll ampersandRule rest :=
  replaceAll_append_of_none fun _ hu => ampersandRule_of_ne fun h => hamp (h ▸ hu)

theorem ampersands_kept (hname : isName name = true) (hamp : name ≠ units "amp") (rest : List ℕ) :
    replaceAll ampersandRule (AMP :: (name ++ [SEMI]) ++ rest) =
      AMP :: (name ++ [SEMI]) ++ replaceAll ampersandRule rest := by
  have hcopy : AMP ∉ name ++ [SEMI] := by
    intro h
    rcases List.mem_append.mp h with h | h
    · exact ne_amp_of_isNameUnit (isName_units hname AMP h) rfl
    · exact absurd (List.mem_singleton.mp h) (by decide)
  have hsingle : ¬ units "amp;" <+: name ++ [SEMI] ++ rest := by
    rw [List.append_assoc]
    exact name_not_amp hname hamp rest
  exact (ampersands_single hsingle).trans (congrArg (AMP :: ·) (ampersands_copy hcopy rest))

/-! ### Two decodings -/

variable {word rest' : List ℕ}

/-- A run in front of both sides keeps them a word apart. -/
theorem shift_append {P : ℕ → Prop} (word : List ℕ) (hne : word ≠ []) (hword : ∀ u ∈ word, P u)
    (h : text ++ rest = word ++ (text ++ rest')) :
    ∃ word' : List ℕ, word' ≠ [] ∧ (∀ u ∈ word', P u) ∧ rest = word' ++ rest' := by
  induction text generalizing word with
  | nil => exact ⟨word, hne, hword, h⟩
  | cons u text ih =>
      obtain ⟨first, word, rfl⟩ := List.exists_cons_of_ne_nil hne
      obtain ⟨rfl, htail⟩ := List.cons.inj h
      refine ih (word ++ [u]) (by simp) (fun u' hu' => ?_) ?_
      · rcases List.mem_append.mp hu' with hu' | hu'
        · exact hword u' (List.mem_cons_of_mem u hu')
        · exact List.mem_singleton.mp hu' ▸ hword u List.mem_cons_self
      · calc text ++ rest = word ++ (u :: text ++ rest') := htail
          _ = word ++ [u] ++ (text ++ rest') := by rw [List.append_assoc]; rfl

theorem decoded_cons (piece : Piece) (pieces : List Piece) :
    decoded (piece :: pieces) =
      replaceAll ampersandRule (piece.afterNumbers ++ pieces.flatMap Piece.afterNumbers) := rfl

theorem meaning_cons (piece : Piece) (pieces : List Piece) :
    meaning (piece :: pieces) = piece.meaning ++ meaning pieces := rfl

/-- What is decoded never runs ahead of the meaning by a word of plain letters: the word would be
repeated up to the first ampersand. -/
theorem decoded_ne_shift (word : List ℕ) (pieces : List Piece) (hne : word ≠ [])
    (hword : ∀ u ∈ word, u ≠ AMP ∧ u ≠ 0x66) : decoded pieces ≠ word ++ meaning pieces := by
  have hhead : ∀ {word : List ℕ} {u tail more}, word ≠ [] → (∀ u ∈ word, u ≠ AMP ∧ u ≠ 0x66) →
      u :: tail = word ++ more → u ≠ AMP ∧ u ≠ 0x66 := by
    intro word u tail more hne hword h
    obtain ⟨first, word, rfl⟩ := List.exists_cons_of_ne_nil hne
    rw [(List.cons.inj (h : u :: tail = first :: (word ++ more))).1]
    exact hword first List.mem_cons_self
  induction pieces generalizing word with
  | nil => exact fun h => hne (List.append_eq_nil_iff.mp h.symm).1
  | cons piece pieces ih =>
      intro h
      rw [decoded_cons] at h
      cases met piece with
      | plain hafter hamp =>
          rw [hafter, ampersands_copy hamp, meaning_cons] at h
          obtain ⟨word', hne', hword', heq⟩ := shift_append word hne hword h
          exact ih word' hne' hword' heq
      | ampersand =>
          exact (hhead hne hword ((ampersands_amp _).symm.trans h)).1 rfl
      | numeric hafter =>
          rw [hafter, List.singleton_append] at h
          by_cases hprefix : units "amp;" <+: pieces.flatMap Piece.afterNumbers
          · obtain ⟨after, hafter⟩ := hprefix
            rw [← hafter] at h
            exact (hhead hne hword ((ampersands_amp after).symm.trans h)).1 rfl
          · exact (hhead hne hword ((ampersands_single hprefix).symm.trans h)).1 rfl
      | kept name hafter hmeaning hname hamp =>
          rw [hafter, ampersands_kept hname hamp] at h
          exact (hhead hne hword h).1 rfl
      | inherited hafter =>
          rw [hafter, List.cons_append, replaceAll_cons (ampersandRule_of_ne (by decide) _)] at h
          exact (hhead hne hword h).2 rfl

theorem prefix_append_iff_of (h : ∀ word' : List ℕ, (∀ u ∈ word', u ∈ word) →
    (word' <+: rest ↔ word' <+: rest')) : word <+: text ++ rest ↔ word <+: text ++ rest' := by
  induction text generalizing word with
  | nil => exact h word fun _ hu => hu
  | cons u text ih =>
      cases word with
      | nil => exact iff_of_true (List.nil_prefix) (List.nil_prefix)
      | cons first word =>
          rw [List.cons_append, List.cons_append, List.cons_prefix_cons, List.cons_prefix_cons,
            ih fun word' hsub => h word' fun u' hu' => List.mem_cons_of_mem first (hsub u' hu')]

/-- Plain letters come next after the first two passes when they do in the meaning. -/
theorem prefix_iff (pieces : List Piece) (hword : ∀ u ∈ word, u ≠ AMP ∧ u ≠ 0x66) :
    word <+: pieces.flatMap Piece.afterNumbers ↔ word <+: meaning pieces := by
  induction pieces generalizing word with
  | nil => exact Iff.rfl
  | cons piece pieces ih =>
      rw [List.flatMap_cons, meaning_cons]
      cases word with
      | nil => exact iff_of_true (List.nil_prefix) (List.nil_prefix)
      | cons first word =>
          have hstop : ∀ {u tail}, u = AMP ∨ u = 0x66 → ¬ first :: word <+: u :: tail :=
            fun hu hprefix => by
              obtain ⟨hamp, hf⟩ := hword first List.mem_cons_self
              rw [(List.cons_prefix_cons.mp hprefix).1] at hamp hf
              exact hu.elim hamp hf
          cases met piece with
          | plain hafter =>
              rw [hafter]
              exact prefix_append_iff_of fun word' hsub => ih fun u hu => hword u (hsub u hu)
          | ampersand => exact iff_of_false (hstop (.inl rfl)) (hstop (.inl rfl))
          | numeric hafter hmeaning =>
              rw [hafter, hmeaning]
              exact iff_of_false (hstop (.inl rfl)) (hstop (.inl rfl))
          | kept name hafter hmeaning =>
              rw [hafter, hmeaning]
              exact iff_of_false (hstop (.inl rfl)) (hstop (.inl rfl))
          | inherited hafter hmeaning =>
              rw [hafter, hmeaning]
              exact iff_of_false (hstop (.inr rfl)) (hstop (.inl rfl))

/-- An ampersand in front of `amp;` swallows it. -/
theorem decoded_swallowed (h : units "amp;" <+: meaning pieces) :
    replaceAll ampersandRule (AMP :: pieces.flatMap Piece.afterNumbers) ≠
      AMP :: meaning pieces := by
  obtain ⟨after, hafter⟩ := (prefix_iff pieces (by decide)).mpr h
  rw [← hafter]
  intro heq
  have hrest : replaceAll ampersandRule after = meaning pieces :=
    (List.cons.inj ((ampersands_amp after).symm.trans heq)).2
  refine decoded_ne_shift (units "amp;") pieces (by decide) (by decide) ?_
  rw [decoded, ← hafter, ampersands_copy (by decide), hrest]

theorem decodedOnce_cons {piece : Piece} :
    DecodedOnce (piece :: pieces) ↔ ¬ piece.Inherited ∧
      (piece.NumericAmpersand → ¬ units "amp;" <+: meaning pieces) ∧ DecodedOnce pieces := by
  constructor
  · intro h
    exact ⟨h.unknown piece List.mem_cons_self, h.numeric piece pieces List.suffix_rfl,
      fun piece' hmem => h.unknown piece' (List.mem_cons_of_mem piece hmem),
      fun piece' after hsuffix => h.numeric piece' after (hsuffix.trans (List.suffix_cons ..))⟩
  · rintro ⟨hinherited, hnumeric, hrest⟩
    refine ⟨fun piece' hmem => ?_, fun piece' after hsuffix => ?_⟩
    · rcases List.mem_cons.mp hmem with rfl | hmem
      · exact hinherited
      · exact hrest.unknown piece' hmem
    · rcases List.suffix_cons_iff.mp hsuffix with heq | hsuffix
      · cases heq
        exact hnumeric
      · exact hrest.numeric piece' after hsuffix

theorem decoded_eq_meaning_iff (pieces : List Piece) :
    decoded pieces = meaning pieces ↔ DecodedOnce pieces := by
  induction pieces with
  | nil => exact iff_of_true rfl ⟨nofun, fun _ _ h => by cases List.suffix_nil.mp h⟩
  | cons piece pieces ih =>
      rw [decodedOnce_cons, ← ih, decoded_cons, meaning_cons]
      cases met piece with
      | plain hafter hamp hnumeric hinherited =>
          rw [hafter, ampersands_copy hamp, List.append_cancel_left_eq]
          exact ⟨fun h => ⟨hinherited, fun h => absurd h hnumeric, h⟩, fun h => h.2.2⟩
      | ampersand =>
          have h : replaceAll ampersandRule
              (Piece.ampersand.afterNumbers ++ pieces.flatMap Piece.afterNumbers) =
              AMP :: decoded pieces := ampersands_amp _
          rw [h]
          exact ⟨fun h => ⟨id, fun h => h.elim, (List.cons.inj h).2⟩,
            fun h => congrArg (AMP :: ·) h.2.2⟩
      | numeric hafter hmeaning hnumeric hinherited =>
          rw [hafter, hmeaning, List.singleton_append, List.singleton_append]
          by_cases hprefix : units "amp;" <+: meaning pieces
          · exact iff_of_false (decoded_swallowed hprefix) fun h => h.2.1 hnumeric hprefix
          · rw [ampersands_single (mt (prefix_iff pieces (by decide)).mp hprefix)]
            exact ⟨fun h => ⟨hinherited, fun _ => hprefix, (List.cons.inj h).2⟩,
              fun h => congrArg (AMP :: ·) h.2.2⟩
      | kept name hafter hmeaning hname hamp hnumeric hinherited =>
          rw [hafter, hmeaning, ampersands_kept hname hamp, List.append_cancel_left_eq]
          exact ⟨fun h => ⟨hinherited, fun h => absurd h hnumeric, h⟩, fun h => h.2.2⟩
      | inherited hafter hmeaning hinherited =>
          refine iff_of_false (fun h => ?_) fun h => h.1 hinherited
          rw [hafter, hmeaning, List.cons_append,
            replaceAll_cons (ampersandRule_of_ne (by decide) _)] at h
          exact absurd (List.cons.inj h).1 (by decide)

end

/-- **Decoding removes one level of escaping**, whatever the spelling of each piece, exactly when no
unknown name is a property of every object and no ampersand with a numeric reference comes before
`amp;`. -/
theorem decodeHtmlEntities_spelling (pieces : List Piece) :
    decodeHtmlEntities (spelling pieces) = meaning pieces ↔ DecodedOnce pieces := by
  rw [decodeHtmlEntities, afterNumbers_eq]
  exact decoded_eq_meaning_iff pieces

/-- `&#38;amp;` writes `&amp;`, and is decoded to `&`; `&constructor;` is decoded to the text of a
function. -/
theorem ampersand_decoded_twice :
    (∃ pieces, spelling pieces = units "&#38;amp;" ∧ meaning pieces = units "&amp;" ∧
      decodeHtmlEntities (spelling pieces) = units "&") ∧
    ∃ pieces, spelling pieces = units "&constructor;" ∧ meaning pieces = units "&constructor;" ∧
      decodeHtmlEntities (spelling pieces) = units "function Object() { [native code] }" := by
  constructor
  · exact ⟨[.decimal (units "38") [AMP] (by decide) (by decide) (by decide),
      .literal 0x61 (by decide), .literal 0x6D (by decide), .literal 0x70 (by decide),
      .literal SEMI (by decide)], by decide, by decide, by decide⟩
  · exact ⟨[.unknown (units "constructor") (by decide) (by decide) (by decide)],
      by decide, by decide, by decide⟩

end MailPortal.Text
