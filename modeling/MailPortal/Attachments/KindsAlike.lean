import Mathlib.Data.List.Forall2
import MailPortal.Attachments.Kinds

/-!
# Where the Classifiers Agree

The values are plain words, so lower case does not tell the classifiers apart, and leading white
space of a filename hides no extension. What is left is white space other than spaces around a MIME
type or behind an extension: there JavaScript finds the value and SQL does not.

Main results:

* `kindWhere_mimeSql`, `kindWhere_likeSql`: SQL finds what JavaScript finds, or nothing.
* `mailboxAttachmentKindSql_eq_iff`: the condition for the same kind, of which there is one.
-/

namespace MailPortal.Attachments

open Words SqlText

variable {c : Char} {byKind : AttachmentKind → List String}
variable {a b : AttachmentKind}

def isSpace (c : Char) : Bool := c = ' '

/-! ### The values -/

/-- Lower-case letters and digits at both ends of a plain word. -/
def isValue (word : List Char) : Bool :=
  word.all (fun c => c.toNat < 128 && c ≠ 'k') && word.head?.any isExtensionChar &&
    word.getLast?.any isExtensionChar

/-- Lower-case letters and digits, and no other letter becomes one. -/
def isExtensionValue (word : List Char) : Bool :=
  word ≠ [] && word.all fun c => isExtensionChar c && c ≠ 'k'

theorem mime_isValue (kind : AttachmentKind) :
    ∀ v ∈ MIME_BY_KIND kind, isValue v.toList = true := by
  cases kind <;> exact List.all_eq_true.mp rfl

theorem extension_isValue (kind : AttachmentKind) :
    ∀ v ∈ EXTENSIONS_BY_KIND kind, isExtensionValue v.toList = true := by
  cases kind <;> exact List.all_eq_true.mp rfl

theorem mime_disjoint {v : String} (ha : v ∈ MIME_BY_KIND a) (hb : v ∈ MIME_BY_KIND b) : a = b := by
  have hall : ∀ a b : AttachmentKind, ∀ v ∈ MIME_BY_KIND a, v ∈ MIME_BY_KIND b → a = b := by
    intro a b
    cases a <;> cases b <;> decide
  exact hall a b v ha hb

theorem extension_disjoint {v : String} (ha : v ∈ EXTENSIONS_BY_KIND a)
    (hb : v ∈ EXTENSIONS_BY_KIND b) : a = b := by
  have hall : ∀ a b : AttachmentKind, ∀ v ∈ EXTENSIONS_BY_KIND a,
      v ∈ EXTENSIONS_BY_KIND b → a = b := by
    intro a b
    cases a <;> cases b <;> decide
  exact hall a b v ha hb

/-- White space has no case, and is no letter or digit. -/
theorem isTrimmed_foldCase (h : isTrimmed c = true) :
    foldCase c = c ∧ isExtensionChar c = false ∧ c ≠ '.' := by
  have hall : ∀ n ∈ [0x09, 0x0A, 0x0B, 0x0C, 0x0D, 0x20, 0xA0, 0x1680, 0x2000, 0x2001, 0x2002,
      0x2003, 0x2004, 0x2005, 0x2006, 0x2007, 0x2008, 0x2009, 0x200A, 0x2028, 0x2029,
      0x202F, 0x205F, 0x3000, 0xFEFF], foldCase (Char.ofNat n) = Char.ofNat n ∧
        isExtensionChar (Char.ofNat n) = false ∧ Char.ofNat n ≠ '.' := by decide
  have hc := hall c.toNat (of_decide_eq_true h)
  rwa [Char.ofNat_toNat] at hc

theorem isTrimmed_of_isSpace (h : isSpace c = true) : isTrimmed c = true := by
  rw [of_decide_eq_true h]
  decide

/-- What has a letter or digit for its lower case is no white space. -/
theorem not_isTrimmed (h : isExtensionChar (foldCase c) = true) : isTrimmed c = false := by
  by_contra hc
  obtain ⟨hfold, hno, -⟩ := isTrimmed_foldCase (Bool.not_eq_false _ ▸ hc)
  rw [hfold, hno] at h
  cases h

theorem isExtensionChar_range (h : isExtensionChar c = true) :
    48 ≤ c.toNat ∧ c.toNat ≤ 57 ∨ 97 ≤ c.toNat ∧ c.toNat ≤ 122 := by
  simp only [isExtensionChar, Bool.or_eq_true, Bool.and_eq_true, decide_eq_true_eq] at h
  rcases h with ⟨hlow, hhigh⟩ | ⟨hlow, hhigh⟩
  · exact .inr ⟨hlow, hhigh⟩
  · exact .inl ⟨hlow, hhigh⟩

theorem isExtensionChar_foldCase (h : isExtensionChar c = true) : foldCase c = c := by
  have hrange := isExtensionChar_range h
  rw [foldCase, if_neg]
  rintro ⟨hlow, hhigh⟩
  have hA : 65 ≤ c.toNat := hlow
  have hZ : c.toNat ≤ 90 := hhigh
  omega

section Values

variable {word text : List Char}

theorem isValue_plain (h : isValue word = true) : Plain word := by
  intro c hc
  simp only [isValue, Bool.and_eq_true, List.all_eq_true] at h
  simpa using h.1.1 c hc

/-- A text that is a value up to case begins and ends with a letter or digit. -/
theorem isValue_ends (h : isValue word = true) (htext : text.map foldCase = word) :
    (∃ c rest, text = c :: rest ∧ isTrimmed c = false) ∧ EndsOutside isTrimmed text := by
  simp only [isValue, Bool.and_eq_true] at h
  obtain ⟨⟨-, hfirst⟩, hlast⟩ := h
  rw [← htext] at hfirst hlast
  refine ⟨?_, ?_⟩
  · cases text with
    | nil => cases hfirst
    | cons c rest => exact ⟨c, rest, rfl, not_isTrimmed hfirst⟩
  · rw [List.getLast?_map] at hlast
    obtain ⟨c, hc⟩ : ∃ c, text.getLast? = some c := by
      cases hc : text.getLast? with
      | none => rw [hc] at hlast; cases hlast
      | some c => exact ⟨c, rfl⟩
    rw [hc] at hlast
    exact ⟨c, hc, not_isTrimmed hlast⟩

section

variable (h : isExtensionValue word = true)
include h

theorem isExtensionValue_chars (hc : c ∈ word) : isExtensionChar c = true ∧ c ≠ 'k' := by
  simp only [isExtensionValue, Bool.and_eq_true, List.all_eq_true] at h
  simpa using h.2 c hc

theorem isExtensionValue_ne_nil : word ≠ [] := by
  simp only [isExtensionValue, Bool.and_eq_true, decide_eq_true_eq] at h
  exact h.1

/-- With the dot in front, too. -/
theorem isExtensionValue_dotted (hc : c ∈ '.' :: word) :
    c.toNat < 128 ∧ c ≠ 'k' ∧ foldCase c = c ∧ isTrimmed c = false ∧
      c ≠ '%' ∧ c ≠ '_' ∧ c ≠ '\\' := by
  rcases List.mem_cons.mp hc with rfl | hc
  · decide
  · obtain ⟨hchar, hk⟩ := isExtensionValue_chars h hc
    have hfold := isExtensionChar_foldCase hchar
    have hrange := isExtensionChar_range hchar
    refine ⟨by omega, hk, hfold, not_isTrimmed (by rw [hfold]; exact hchar), ?_, ?_, ?_⟩
    · rintro rfl
      cases hchar
    · rintro rfl
      cases hchar
    · rintro rfl
      cases hchar

theorem isExtensionValue_plain : Plain ('.' :: word) :=
  fun _ hc => ⟨(isExtensionValue_dotted h hc).1, (isExtensionValue_dotted h hc).2.1⟩

/-- A text with an extension ends with its last letter or digit. -/
theorem isExtensionValue_ends (hsuffix : '.' :: word <:+ text.map foldCase) :
    EndsOutside isTrimmed text := by
  obtain ⟨front, d, rfl⟩ := (List.eq_nil_or_concat word).resolve_left (isExtensionValue_ne_nil h)
  obtain ⟨lead, heq⟩ := hsuffix
  have hlast : (text.map foldCase).getLast? = some d := by
    rw [← heq, List.concat_eq_append, ← List.cons_append, ← List.append_assoc,
      List.getLast?_concat]
  rw [List.getLast?_map, Option.map_eq_some_iff] at hlast
  obtain ⟨c, hc, rfl⟩ := hlast
  have hchar := (isExtensionValue_chars h (c := foldCase c) (by simp)).1
  exact ⟨c, hc, not_isTrimmed hchar⟩

/-- The expression captures what stands behind the last dot. -/
theorem matchExtension_eq_iff : matchExtension text = word ↔ '.' :: word <:+ text := by
  have hwhole : text =
      (text.reverse.dropWhile isExtensionChar).reverse ++
        (text.reverse.takeWhile isExtensionChar).reverse := by
    rw [← List.reverse_append, List.takeWhile_append_dropWhile, List.reverse_reverse]
  rw [matchExtension]
  constructor
  · intro heq
    split at heq
    · rename_i hmatch
      obtain ⟨-, hdot⟩ := hmatch
      obtain ⟨rest, hrest⟩ : ∃ rest, text.reverse.dropWhile isExtensionChar = '.' :: rest := by
        cases hdrop : text.reverse.dropWhile isExtensionChar with
        | nil => rw [hdrop] at hdot; cases hdot
        | cons c rest =>
          rw [hdrop] at hdot
          exact ⟨rest, by rw [Option.some.inj hdot]⟩
      refine ⟨rest.reverse, ?_⟩
      rw [hwhole, hrest, heq, List.reverse_cons, List.append_assoc]
      rfl
    · exact absurd heq.symm (isExtensionValue_ne_nil h)
  · rintro ⟨lead, rfl⟩
    have hall : ∀ c ∈ word.reverse, isExtensionChar c = true := fun c hc =>
      (isExtensionValue_chars h (List.mem_reverse.mp hc)).1
    have hreverse : (lead ++ '.' :: word).reverse = word.reverse ++ ('.' :: lead.reverse) := by
      rw [List.reverse_append, List.reverse_cons, List.append_assoc]
      rfl
    have hdot : ¬isExtensionChar '.' = true := by decide
    rw [hreverse, List.takeWhile_append_of_pos hall, List.dropWhile_append_of_pos hall,
      List.takeWhile_cons_of_neg hdot, List.dropWhile_cons_of_neg hdot, List.append_nil,
      List.reverse_reverse]
    exact if_pos ⟨isExtensionValue_ne_nil h, rfl⟩

end

end Values

/-! ### Which values the classifiers find -/

section Found

variable (lowerCase : LowerCase) {v filename mimetype : String}

/-- The part in front of the first semicolon, without white space around it. -/
def mimePart (mimetype : String) : List Char :=
  trimBoth isTrimmed (mimetype.toList.takeWhile (· ≠ ';'))

/-- The same without spaces around it. -/
def mimePartSql (mimetype : String) : List Char :=
  trimBoth isSpace (mimetype.toList.takeWhile (· ≠ ';'))

theorem eq_baseMime (hv : isValue v.toList = true) :
    v = baseMime lowerCase mimetype ↔ (mimePart mimetype).map foldCase = v.toList := by
  have htrim : (trim (beforeSemicolon mimetype)).toList = mimePart mimetype := by
    rw [trim, beforeSemicolon, String.toList_ofList, String.toList_ofList]
    rfl
  rw [baseMime, toLowerCase, htrim, ← lowerCase.eq_iff (isValue_plain hv), ← String.toList_inj,
    String.toList_ofList, eq_comm]

theorem eq_mimeSql (filename : Option String) :
    v = mimeSql ⟨filename, some mimetype⟩ ↔
      (mimePartSql mimetype).map foldCase = v.toList := by
  have hpart := substr_instr mimetype (show ";".toList = [';'] from rfl)
  rw [mimeSql, ← String.toList_inj, lower, String.toList_ofList, SqlText.trim,
    String.toList_ofList]
  dsimp only [Option.getD_some]
  rw [hpart, eq_comm]
  rfl

theorem eq_extension (hv : isExtensionValue v.toList = true) :
    v = extension lowerCase filename ↔
      '.' :: v.toList <:+ (trimEnd isTrimmed filename.toList).map foldCase := by
  have htrim : (trim filename).toList = trimBoth isTrimmed filename.toList := by
    rw [trim, String.toList_ofList]
    rfl
  have hnone : ∀ c, isTrimmed c = true → foldCase c ∉ '.' :: v.toList := by
    intro c hc hmem
    have hno := (isExtensionValue_dotted hv hmem).2.2.2.1
    rw [(isTrimmed_foldCase hc).1, hc] at hno
    cases hno
  rw [extension, toLowerCase, String.toList_ofList, htrim, ← suffix_trimBoth hnone,
    ← lowerCase.suffix_iff (isExtensionValue_plain hv), ← matchExtension_eq_iff hv,
    ← String.toList_inj, String.toList_ofList, eq_comm]

theorem like_extension (hv : isExtensionValue v.toList = true) (mimetype : Option String) :
    likeUnescaped (filenameSql ⟨some filename, mimetype⟩) ("%." ++ v) = true ↔
      '.' :: v.toList <:+ (trimEnd isSpace filename.toList).map foldCase := by
  have hword : ("." ++ v).toList = '.' :: v.toList := by simp
  have hpattern : "%." ++ v = "%" ++ ("." ++ v) := by
    rw [← String.toList_inj]
    simp
  have hfold : ('.' :: v.toList).map foldCase = '.' :: v.toList := by
    conv_rhs => rw [← List.map_id ('.' :: v.toList)]
    exact List.map_congr_left fun c hc => (isExtensionValue_dotted hv hc).2.2.1
  have hnone : ∀ c, isSpace c = true → foldCase c ∉ '.' :: v.toList := by
    intro c hc hmem
    have hno := (isExtensionValue_dotted hv hmem).2.2.2.1
    rw [(isTrimmed_foldCase (isTrimmed_of_isSpace hc)).1, isTrimmed_of_isSpace hc] at hno
    cases hno
  rw [hpattern, likeUnescaped_suffix, hword, hfold, filenameSql, lower, SqlText.trim,
    String.toList_ofList, String.toList_ofList, map_foldCase, ← suffix_trimBoth hnone]
  · rfl
  · intro c hc
    rw [hword] at hc
    exact (isExtensionValue_dotted hv hc).2.2.2.2

end Found

/-! ### Which kinds they find -/

theorem kindWhere_congr {p q : String → Bool} (h : ∀ kind, ∀ v ∈ byKind kind, p v = q v) :
    kindWhere byKind p = kindWhere byKind q := by
  refine congrArg (List.find? · ATTACHMENT_KINDS) (funext fun kind => ?_)
  rw [Bool.eq_iff_iff, List.any_eq_true, List.any_eq_true]
  exact exists_congr fun v => and_congr_right fun hv => by rw [h kind v hv]

theorem kindWhere_none {p : String → Bool} (h : ∀ kind, ∀ v ∈ byKind kind, p v = false) :
    kindWhere byKind p = none := by
  rw [kindWhere, List.find?_eq_none]
  intro kind _ hany
  obtain ⟨v, hv, hp⟩ := List.any_eq_true.mp hany
  rw [h kind v hv] at hp
  cases hp

/-- With values that belong to one kind each, the kind of a value is the one found. -/
theorem kindWhere_eq_some {value : String}
    (hdisjoint : ∀ {a b v}, v ∈ byKind a → v ∈ byKind b → a = b) (kind : AttachmentKind) :
    kindWhere byKind (fun v => v = value) = some kind ↔ value ∈ byKind kind := by
  have hany : ∀ a, ((byKind a).any fun v => v = value) = true ↔ value ∈ byKind a := by
    intro a
    simp
  rw [kindWhere]
  constructor
  · intro h
    exact (hany kind).mp (List.find?_some (p := fun a => (byKind a).any fun v => v = value) h)
  · intro h
    cases hfind : ATTACHMENT_KINDS.find? fun a => (byKind a).any fun v => v = value with
    | none =>
      have hall : kind ∈ ATTACHMENT_KINDS := by cases kind <;> decide
      exact absurd ((hany kind).mpr h) (List.find?_eq_none.mp hfind kind hall)
    | some a =>
      have ha := List.find?_some (p := fun a => (byKind a).any fun v => v = value) hfind
      rw [hdisjoint ((hany a).mp ha) h]

/-- Two searches, each of which may be given up: the result is the same when the first was made, or
the second was and finds the same; without anything found first, when the second was made or would
find nothing. -/
theorem guarded_or_eq_iff {α : Type} {named extended : Option α} {other : α}
    (hnamed : named ≠ some other) (hextended : extended ≠ some other) {p q : Prop} [Decidable p]
    [Decidable q] :
    ((if p then named else none).or (if q then extended else none)).getD other =
        (named.or extended).getD other ↔
      (∀ kind, named = some kind → p ∨ extended = some kind ∧ q) ∧
        ((∀ kind, ¬named = some kind) → ∀ kind, extended = some kind → q) := by
  cases named with
  | none =>
    cases extended with
    | none => simp
    | some b =>
      have hb : other ≠ b := fun h => hextended (by rw [h])
      by_cases hq : q <;> simp [hq, hb]
  | some a =>
    have ha : other ≠ a := fun h => hnamed (by rw [h])
    by_cases hp : p
    · simp [hp]
    · by_cases hq : q
      · cases extended with
        | none => simp [hp, ha]
        | some b => simp [hp, hq]
      · simp [hp, hq, ha]

section Alike

variable (lowerCase : LowerCase) (filename mimetype : String)

/-- **The MIME type** as SQL reads it names the same kind as in JavaScript, or none where there is
other white space around it. -/
theorem kindWhere_mimeSql :
    kindWhere MIME_BY_KIND (fun v => v = mimeSql ⟨some filename, some mimetype⟩) =
      if mimePartSql mimetype = mimePart mimetype then
        kindWhere MIME_BY_KIND fun v => v = baseMime lowerCase mimetype
      else none := by
  split
  · rename_i hpart
    refine kindWhere_congr fun kind v hv => ?_
    rw [decide_eq_decide, eq_mimeSql, eq_baseMime lowerCase (mime_isValue kind v hv), hpart]
  · rename_i hpart
    refine kindWhere_none fun kind v hv => decide_eq_false fun heq => hpart ?_
    have hfold := (eq_mimeSql (some filename)).mp heq
    obtain ⟨hfirst, hlast⟩ := isValue_ends (mime_isValue kind v hv) hfold
    exact (trimBoth_eq (fun _ => isTrimmed_of_isSpace) hfirst hlast).symm

/-- **The extension**, likewise, where there is other white space behind it. -/
theorem kindWhere_likeSql :
    kindWhere EXTENSIONS_BY_KIND (fun v =>
        likeUnescaped (filenameSql ⟨some filename, some mimetype⟩) ("%." ++ v)) =
      if trimEnd isSpace filename.toList = trimEnd isTrimmed filename.toList then
        kindWhere EXTENSIONS_BY_KIND fun v => v = extension lowerCase filename
      else none := by
  split
  · rename_i hend
    refine kindWhere_congr fun kind v hv => ?_
    have hvalue := extension_isValue kind v hv
    rw [Bool.eq_iff_iff, like_extension hvalue, decide_eq_true_iff, eq_extension lowerCase hvalue,
      hend]
  · rename_i hend
    refine kindWhere_none fun kind v hv => Bool.eq_false_iff.mpr fun hlike => hend ?_
    have hvalue := extension_isValue kind v hv
    obtain ⟨lead, hsuffix⟩ := (like_extension hvalue (some mimetype)).mp hlike
    have hlast := isExtensionValue_ends hvalue ⟨lead, hsuffix⟩
    exact (trimEnd_eq (fun _ => isTrimmed_of_isSpace) hlast).symm

/-- The MIME type, without white space and up to case, is one of the kind. -/
def MimeOf (kind : AttachmentKind) : Prop :=
  ∃ v ∈ MIME_BY_KIND kind, (mimePart mimetype).map foldCase = v.toList

/-- The filename, without white space behind it and up to case, has an extension of the kind. -/
def ExtensionOf (kind : AttachmentKind) : Prop :=
  ∃ v ∈ EXTENSIONS_BY_KIND kind,
    '.' :: v.toList <:+ (trimEnd isTrimmed filename.toList).map foldCase

/-- **Only spaces where it matters.** When the MIME type names a kind, only spaces are around it, or
the filename has an extension of the same kind and only spaces behind it; when it names none, there
are only spaces behind an extension. -/
def SpacesOnly : Prop :=
  (∀ kind, MimeOf mimetype kind → mimePartSql mimetype = mimePart mimetype ∨
    ExtensionOf filename kind ∧
      trimEnd isSpace filename.toList = trimEnd isTrimmed filename.toList) ∧
  ((∀ kind, ¬MimeOf mimetype kind) → ∀ kind, ExtensionOf filename kind →
    trimEnd isSpace filename.toList = trimEnd isTrimmed filename.toList)

theorem kindWhere_mime (kind : AttachmentKind) :
    kindWhere MIME_BY_KIND (fun v => v = baseMime lowerCase mimetype) = some kind ↔
      MimeOf mimetype kind := by
  rw [kindWhere_eq_some mime_disjoint]
  constructor
  · intro h
    exact ⟨_, h, (eq_baseMime lowerCase (mime_isValue kind _ h)).mp rfl⟩
  · rintro ⟨v, hv, hfold⟩
    rwa [← (eq_baseMime lowerCase (mime_isValue kind v hv)).mpr hfold]

theorem kindWhere_extension (kind : AttachmentKind) :
    kindWhere EXTENSIONS_BY_KIND (fun v => v = extension lowerCase filename) = some kind ↔
      ExtensionOf filename kind := by
  rw [kindWhere_eq_some extension_disjoint]
  constructor
  · intro h
    exact ⟨_, h, (eq_extension lowerCase (extension_isValue kind _ h)).mp rfl⟩
  · rintro ⟨v, hv, hsuffix⟩
    rwa [← (eq_extension lowerCase (extension_isValue kind v hv)).mpr hsuffix]

theorem kindWhere_ne_other (hother : byKind .other = []) (p : String → Bool) :
    kindWhere byKind p ≠ some .other := by
  intro h
  have hany := List.find?_some (p := fun a => (byKind a).any p) h
  rw [hother] at hany
  cases hany

/-- **SQL and JavaScript classify an attachment alike exactly when no other white space than spaces
stands where it matters**, and in SQL each row is of exactly one kind. -/
theorem mailboxAttachmentKindSql_eq_iff :
    (mailboxAttachmentKindSql ⟨some filename, some mimetype⟩ =
        (classifyMailboxAttachment lowerCase filename mimetype).text ↔
      SpacesOnly filename mimetype) ∧
    ∀ row : AttachmentRow, ∃! kind : AttachmentKind, mailboxAttachmentKindSql row = kind.text := by
  refine ⟨?_, kindSql_partition⟩
  rw [kindSql_eq, classify_eq, kindWhere_mimeSql lowerCase, kindWhere_likeSql lowerCase, SpacesOnly]
  simp only [← kindWhere_mime lowerCase, ← kindWhere_extension lowerCase]
  have hmime : kindWhere MIME_BY_KIND (fun v => v = baseMime lowerCase mimetype) ≠ some .other :=
    kindWhere_ne_other rfl _
  have hextension :
      kindWhere EXTENSIONS_BY_KIND (fun v => v = extension lowerCase filename) ≠ some .other :=
    kindWhere_ne_other rfl _
  rw [AttachmentKind.text_inj, guarded_or_eq_iff hmime hextension]

end Alike

/-! ### A MIME type with a tab behind it -/

/-- Lower case of ASCII and of the Kelvin sign. -/
def asciiLowerCase : LowerCase where
  lower text := text.map fun c => if c = Char.ofNat 0x212A then 'k' else foldCase c
  pieces text := by
    refine ⟨text.map fun c => [if c = Char.ofNat 0x212A then 'k' else foldCase c], ?_, ?_⟩
    · rw [List.forall₂_map_right_iff, List.forall₂_same]
      intro c _
      split
      · rename_i hc
        rw [hc]
        exact .kelvin
      · by_cases hc : c.toNat < 128
        · exact .ascii hc
        · refine .other (Nat.le_of_not_lt hc) (List.cons_ne_nil _ _) fun d hd => ?_
          rw [List.mem_singleton.mp hd]
          exact Nat.le_of_not_lt fun hfold => hc (foldCase_ascii hfold)
    · induction text with
      | nil => rfl
      | cons c text ih => rw [List.map_cons, List.map_cons, List.flatten_cons, ← ih]; rfl

theorem pdf_with_tab :
    mailboxAttachmentKindSql ⟨some "a", some "application/pdf\t"⟩ = "other" ∧
      (classifyMailboxAttachment asciiLowerCase "a" "application/pdf\t").text = "pdf" := by
  decide

end MailPortal.Attachments
