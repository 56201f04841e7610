import MailPortal.Documents.XmlSearching

/-!
# Scanning a Tag

A tag is scanned to the `>` that is not in quotes, and then for its attributes, which go under their
local names in lower case. The scanner tells attributes apart by these names alone, and takes names
of ASCII only for those of attributes.

Main results:

* `scanTag_body` : a tag ends at the `>` that is not in quotes.
* `parseTag_eq_ok` : the tags that have an element, and what it is.
-/

namespace MailPortal.Documents

open Failure Xml

variable {name : Name} {c : Char}
variable {space : Space} {cs value : List Char} {passes : ℕ} {known : List (List Char × List Char)}
  {s : Attributes}

/-! ### The end of a tag -/

theorem name_ne {d : Char} (h : c ∈ name.chars) (hd : d.toNat ∈ marks) : c ≠ d :=
  fun heq => name.mem h (heq ▸ hd)

theorem space_ne {d : Char} (h : c ∈ space.chars) (hd : isSpace d = false) : c ≠ d := by
  rintro rfl
  exact absurd (space.space c h) (by rw [hd]; exact nofun)

theorem isTrimmed_of_name (h : c ∈ name.chars) : isTrimmed c = false := by
  rw [isTrimmed, decide_eq_false_iff_not]
  intro hmem
  have hsub : ∀ n ∈ [0x09, 0x0A, 0x0B, 0x0C, 0x0D, 0x20, 0xA0, 0x1680, 0x2000, 0x2001, 0x2002,
      0x2003, 0x2004, 0x2005, 0x2006, 0x2007, 0x2008, 0x2009, 0x200A, 0x2028, 0x2029,
        0x202F, 0x205F,
      0x3000, 0xFEFF], n ∈ marks := by decide
  exact name.mem h (hsub _ hmem)

theorem isTrimmed_of_space (h : c ∈ space.chars) : isTrimmed c = true := by
  have hspace := space.space c h
  simp only [isSpace, Bool.or_eq_true, decide_eq_true_eq] at hspace
  rcases hspace with ((rfl | rfl) | rfl) | rfl <;> decide

theorem scanTag_plain (text : List Char) (h : ∀ c ∈ cs, c ≠ '"' ∧ c ≠ APOSTROPHE ∧ c ≠ '>') :
    scanTag none (cs ++ text) = (scanTag none text).map fun (raw, rest) => (cs ++ raw, rest) := by
  induction cs with
  | nil => exact Option.map_id'.symm
  | cons c cs ih =>
    obtain ⟨⟨hdouble, hsingle, hclose⟩, hrest⟩ := List.forall_mem_cons.mp h
    rw [List.cons_append, scanTag, if_neg (not_or.mpr ⟨hdouble, hsingle⟩), if_neg hclose, ih hrest,
      Option.map_map]
    rfl

theorem scanTag_inside {quote : Char} (text : List Char) (h : quote ∉ value) :
    scanTag (some quote) (value ++ quote :: text) =
      (scanTag none text).map fun (raw, rest) => (value ++ quote :: raw, rest) := by
  induction value with
  | nil => rw [List.nil_append, scanTag, if_pos rfl]; rfl
  | cons c value ih =>
    rw [List.cons_append, scanTag, if_neg (Ne.symm (List.ne_of_not_mem_cons h)),
      ih (List.not_mem_of_not_mem_cons h), Option.map_map]
    rfl

theorem quote_eq (quote : Quote) : quote.char = '"' ∨ quote.char = APOSTROPHE := by
  cases quote with
  | double => exact Or.inl rfl
  | single => exact Or.inr rfl

theorem scanTag_quoted (quote : Quote) (text : List Char) (h : quote.char ∉ value) :
    scanTag none (quote.char :: (value ++ quote.char :: text)) =
      (scanTag none text).map fun (raw, rest) =>
        (quote.char :: (value ++ quote.char :: raw), rest) := by
  rw [scanTag, if_pos (quote_eq quote), scanTag_inside text h, Option.map_map]
  rfl

theorem reference_ne (r : Reference) : '"' ∉ r.write ∧ APOSTROPHE ∉ r.write := by
  have hdigits : ∀ {isClass : Char → Bool} {digits : List Char} {c : Char},
      (∀ d ∈ digits, isClass d = true) → isClass c = false → c ∉ digits := by
    intro isClass digits c hdigits hc hmem
    exact absurd (hdigits c hmem) (by rw [hc]; exact nofun)
  cases r with
  | predefined entity => cases entity <;> decide
  | decimal digits _ h _ =>
    have hdouble : '"' ∉ digits := hdigits h (by decide)
    have hsingle : APOSTROPHE ∉ digits := hdigits h (by decide)
    constructor <;> simp only [Reference.write, List.mem_cons, List.mem_append, not_or]
    · exact ⟨by decide, by decide, hdouble, by decide⟩
    · exact ⟨by decide, by decide, hsingle, by decide⟩
  | hexadecimal digits _ h _ =>
    have hdouble : '"' ∉ digits := hdigits h (by decide)
    have hsingle : APOSTROPHE ∉ digits := hdigits h (by decide)
    constructor <;> simp only [Reference.write, List.mem_cons, List.mem_append, not_or]
    · exact ⟨by decide, by decide, by decide, hdouble, by decide⟩
    · exact ⟨by decide, by decide, by decide, hsingle, by decide⟩

/-- The quote is not in the value. -/
theorem quote_not_mem (a : Attribute) : a.quote.char ∉ a.valueText := by
  intro hmem
  obtain ⟨part, -, hin⟩ := List.mem_flatMap.mp hmem
  cases part with
  | literal c h => exact h.2.2 (List.mem_singleton.mp hin).symm
  | reference r =>
    rcases quote_eq a.quote with heq | heq
    · exact (reference_ne r).1 (heq ▸ hin)
    · exact (reference_ne r).2 (heq ▸ hin)

theorem name_plain (name : Name) : ∀ c ∈ name.chars, c ≠ '"' ∧ c ≠ APOSTROPHE ∧ c ≠ '>' :=
  fun _ h => ⟨name_ne h (by decide), name_ne h (by decide), name_ne h (by decide)⟩

theorem space_plain (space : Space) : ∀ c ∈ space.chars, c ≠ '"' ∧ c ≠ APOSTROPHE ∧ c ≠ '>' :=
  fun _ h => ⟨space_ne h (by decide), space_ne h (by decide), space_ne h (by decide)⟩

theorem scanTag_attribute (a : Attribute) (text : List Char) : scanTag none (a.write ++ text) =
    (scanTag none text).map fun (raw, rest) => (a.write ++ raw, rest) := by
  have hequals : ∀ c ∈ ['='], c ≠ '"' ∧ c ≠ APOSTROPHE ∧ c ≠ '>' := by
    intro c hc
    obtain rfl := List.mem_singleton.mp hc
    decide
  have hwrite : ∀ text : List Char, a.write ++ text = a.space.chars ++ (a.name.chars ++
      (a.before.chars ++ (['='] ++ (a.behind.chars ++
        (a.quote.char :: (a.valueText ++ a.quote.char :: text)))))) := by
    intro text
    simp only [Attribute.write, List.append_assoc, List.cons_append, List.nil_append]
  rw [hwrite, scanTag_plain _ (space_plain a.space), scanTag_plain _ (name_plain a.name),
    scanTag_plain _ (space_plain a.before), scanTag_plain _ hequals,
    scanTag_plain _ (space_plain a.behind), scanTag_quoted a.quote text (quote_not_mem a)]
  simp only [Option.map_map, Function.comp_def, hwrite]

theorem scanTag_attributes (attributes : List Attribute) (text : List Char) :
    scanTag none (attributes.flatMap Attribute.write ++ text) = (scanTag none text).map
      fun (raw, rest) => (attributes.flatMap Attribute.write ++ raw, rest) := by
  induction attributes with
  | nil => exact Option.map_id'.symm
  | cons a attributes ih =>
    rw [List.flatMap_cons, List.append_assoc, scanTag_attribute, ih, Option.map_map]
    simp only [Function.comp_def, List.append_assoc]

/-- **A tag ends** at the `>` that is not in quotes. -/
theorem scanTag_body (t : Tag) (rest : List Char) :
    scanTag none (t.body ++ '>' :: rest) = some (t.body, rest) := by
  have hslash : ∀ c ∈ (if t.empty then ['/'] else []), c ≠ '"' ∧ c ≠ APOSTROPHE ∧ c ≠ '>' := by
    intro c hc
    split at hc
    · obtain rfl := List.mem_singleton.mp hc
      decide
    · cases hc
  have hend : scanTag none ('>' :: rest) = some ([], rest) := rfl
  rw [Tag.body, List.append_assoc, List.append_assoc, List.append_assoc,
    scanTag_plain _ (name_plain t.name), scanTag_attributes, scanTag_plain _ (space_plain t.space),
    scanTag_plain _ hslash, hend]
  simp only [Option.map_some, List.append_nil]

/-! ### The parts of a tag -/

/-- White space at the end is trimmed. -/
theorem trimChars_append {core space : List Char}
    (hfirst : ∀ c, core.head? = some c → isTrimmed c = false)
    (hlast : ∀ c, core.getLast? = some c → isTrimmed c = false)
    (hspace : ∀ c ∈ space, isTrimmed c = true) : trimChars (core ++ space) = core := by
  cases core with
  | nil =>
    rw [List.nil_append, trimChars, List.dropWhile_eq_nil_iff.mpr hspace]
    rfl
  | cons c cs =>
    have hc : ¬isTrimmed c = true := by
      rw [hfirst c rfl]
      exact Bool.false_ne_true
    have hback : (c :: cs).reverse.dropWhile isTrimmed = (c :: cs).reverse := by
      cases hreverse : (c :: cs).reverse with
      | nil => rfl
      | cons d ds =>
        refine List.dropWhile_cons_of_neg ?_
        rw [hlast d (by rw [List.getLast?_eq_head?_reverse, hreverse]; rfl)]
        exact Bool.false_ne_true
    rw [trimChars, List.cons_append, List.dropWhile_cons_of_neg hc, ← List.cons_append,
      List.reverse_append,
      List.dropWhile_append_of_pos fun d hd => hspace d (List.mem_reverse.mp hd), hback,
      List.reverse_reverse]

/-- The name and the attributes of a tag. -/
def inner (t : Tag) : List Char := t.name.chars ++ t.attributes.flatMap Attribute.write

theorem inner_last (t : Tag) (h : (inner t).getLast? = some c) : isTrimmed c = false ∧ c ≠ '/' := by
  rcases List.eq_nil_or_concat t.attributes with hnil | ⟨attributes, a, hattributes⟩
  · rw [inner, hnil, List.flatMap_nil, List.append_nil] at h
    have hmem := List.mem_of_getLast? h
    exact ⟨isTrimmed_of_name hmem, name_ne hmem (by decide)⟩
  · have hsplit : inner t = (t.name.chars ++ (attributes.flatMap Attribute.write ++
        (a.space.chars ++ (a.name.chars ++ (a.before.chars ++ '=' :: (a.behind.chars ++
          a.quote.char :: a.valueText)))))) ++ [a.quote.char] := by
      rw [inner, hattributes, List.concat_eq_append, List.flatMap_append, List.flatMap_singleton,
        Attribute.write]
      simp only [List.append_assoc, List.cons_append]
    rw [hsplit, List.getLast?_concat] at h
    cases h
    cases a.quote <;> decide

theorem trimChars_inner (t : Tag) {space : List Char} (h : ∀ c ∈ space, isTrimmed c = true) :
    trimChars (inner t ++ space) = inner t := by
  refine trimChars_append (fun c hc => ?_) (fun c hc => (inner_last t hc).1) h
  obtain rfl : t.name.first = c := Option.some.inj hc
  exact isTrimmed_of_name List.mem_cons_self

/-- What is left of a tag without white space and the slash at its end. -/
theorem raw_body (t : Tag) : trimChars (dropSlash (trimChars t.body)) = inner t := by
  have hspace : ∀ c ∈ t.space.chars, isTrimmed c = true := fun _ => isTrimmed_of_space
  have hbody : t.body = inner t ++ (t.space.chars ++ if t.empty then ['/'] else []) := by
    rw [Tag.body, inner, List.append_assoc]
  have hnone : ∀ c ∈ ([] : List Char), isTrimmed c = true := nofun
  cases hempty : t.empty with
  | false =>
    have hkept : dropSlash (inner t) = inner t := if_neg fun h => (inner_last t h).2 rfl
    rw [hbody, hempty, if_neg Bool.false_ne_true, List.append_nil, trimChars_inner t hspace, hkept]
    have htrim := trimChars_inner t hnone
    rwa [List.append_nil] at htrim
  | true =>
    have hslash : trimChars (inner t ++ t.space.chars ++ ['/']) =
        inner t ++ t.space.chars ++ ['/'] := by
      have hfirst : ∀ c, (inner t ++ t.space.chars ++ ['/']).head? = some c →
          isTrimmed c = false := by
        intro c hc
        obtain rfl : t.name.first = c := Option.some.inj hc
        exact isTrimmed_of_name List.mem_cons_self
      have hlast : ∀ c, (inner t ++ t.space.chars ++ ['/']).getLast? = some c →
          isTrimmed c = false := by
        intro c hc
        rw [List.getLast?_concat] at hc
        cases hc
        decide
      have htrim := trimChars_append hfirst hlast hnone
      rwa [List.append_nil] at htrim
    rw [hbody, hempty, if_pos rfl, ← List.append_assoc, hslash, dropSlash,
      if_pos List.getLast?_concat, List.dropLast_concat, trimChars_inner t hspace]

/-! ### Attributes -/

/-- The names that the scanner takes for those of attributes. -/
def Ascii (name : Name) : Prop := ∀ c ∈ name.chars, c.toNat < 128

theorem attributeStart_ascii (h : isStartCode c.toNat = true) (hc : c.toNat < 128) :
    isAttributeStart c = true := by
  have hall : ∀ n < 128, isStartCode n = true → isAttributeStart (Char.ofNat n) = true := by decide
  rw [← Char.ofNat_toNat c]
  exact hall _ hc h

theorem attributeChar_ascii (h : isNameCode c.toNat = true) (hc : c.toNat < 128) :
    isAttributeChar c = true := by
  have hall : ∀ n < 128, isNameCode n = true → isAttributeChar (Char.ofNat n) = true := by decide
  rw [← Char.ofNat_toNat c]
  exact hall _ hc h

theorem ascii_of_attributeChar (h : isAttributeChar c = true) : c.toNat < 128 := by
  have hle : ∀ {d : Char}, c ≤ d → c.toNat ≤ d.toNat := fun h => h
  simp only [isAttributeChar, isAttributeStart, isLetter, isDecimal, Bool.or_eq_true,
    Bool.and_eq_true, decide_eq_true_eq] at h
  rcases h with (((((⟨-, h⟩ | ⟨-, h⟩) | rfl) | rfl) | ⟨-, h⟩) | rfl) | rfl
  · exact Nat.lt_of_le_of_lt (hle h) (by decide)
  · exact Nat.lt_of_le_of_lt (hle h) (by decide)
  · decide
  · decide
  · exact Nat.lt_of_le_of_lt (hle h) (by decide)
  · decide
  · decide

/-- What stands behind a name that is taken for that of an attribute. -/
theorem attributeAt_ascii (a : Attribute) (hascii : Ascii a.name) (rest : List Char) :
    attributeAt
      (a.name.chars ++ (a.before.chars ++ '=' :: (a.behind.chars ++ a.quote.char :: rest))) =
      some (a.name.chars, a.quote.char, rest) := by
  obtain ⟨hfirst, hmore⟩ := List.forall_mem_cons.mp hascii
  have hstart : isAttributeStart a.name.first = true :=
    attributeStart_ascii a.name.first_start hfirst
  have hrun : ∀ c ∈ a.name.more, isAttributeChar c = true := fun c hc =>
    attributeChar_ascii (a.name.more_name c hc) (hmore c hc)
  have hquote : isTrimmed a.quote.char = false := by cases a.quote <;> decide
  have hbefore : ∀ text : List Char, ('=' :: text).dropWhile isTrimmed = '=' :: text := fun _ => rfl
  have hstop : (a.before.chars ++ '=' :: (a.behind.chars ++ a.quote.char :: rest)).takeWhile
      isAttributeChar = [] := by
    cases hspace : a.before.chars with
    | nil => rfl
    | cons c cs =>
      have hc : isAttributeChar c = false := by
        have hmem : c ∈ a.before.chars := by rw [hspace]; exact List.mem_cons_self
        have htrimmed := a.before.space c hmem
        simp only [isSpace, Bool.or_eq_true, decide_eq_true_eq] at htrimmed
        rcases htrimmed with ((rfl | rfl) | rfl) | rfl <;> decide
      exact List.takeWhile_cons_of_neg (by rw [hc]; exact Bool.false_ne_true)
  rw [Name.chars, List.cons_append, attributeAt, if_pos hstart]
  simp only [List.takeWhile_append_of_pos hrun, hstop, List.append_nil, List.drop_left,
    List.dropWhile_append_of_pos fun c (hc : c ∈ a.before.chars) => isTrimmed_of_space hc, hbefore,
    List.dropWhile_append_of_pos fun c (hc : c ∈ a.behind.chars) => isTrimmed_of_space hc]
  rw [List.dropWhile_cons_of_neg (by rw [hquote]; exact Bool.false_ne_true)]
  exact if_pos (quote_eq a.quote)

/-- The first element outside a class. -/
theorem exists_outside {isClass : Char → Bool} (h : ¬∀ c ∈ cs, isClass c = true) :
    ∃ front c back, cs = front ++ c :: back ∧
      (∀ d ∈ front, isClass d = true) ∧ isClass c = false := by
  induction cs with
  | nil => exact absurd nofun h
  | cons c cs ih =>
    cases hc : isClass c with
    | false => exact ⟨[], c, cs, rfl, nofun, hc⟩
    | true =>
      obtain ⟨front, d, back, rfl, hfront, hd⟩ :=
        ih fun hall => h (List.forall_mem_cons.mpr ⟨hc, hall⟩)
      exact ⟨c :: front, d, back, rfl, List.forall_mem_cons.mpr ⟨hc, hfront⟩, hd⟩

/-- A name with a character beyond ASCII is not taken for that of an attribute. -/
theorem attributeAt_beyond (h : ¬Ascii name) (rest : List Char) :
    attributeAt (name.chars ++ rest) = none := by
  rw [Name.chars, List.cons_append, attributeAt]
  by_cases hstart : isAttributeStart name.first = true
  · have hmore : ¬∀ c ∈ name.more, isAttributeChar c = true := fun hall =>
      h (List.forall_mem_cons.mpr ⟨ascii_of_attributeChar (by rw [isAttributeChar, hstart]; rfl),
        fun c hc => ascii_of_attributeChar (hall c hc)⟩)
    -- the run of the class ends inside the name, in front of neither white space nor `=`
    obtain ⟨front, c, back, hsplit, hfront, hc⟩ := exists_outside hmore
    have hmem : c ∈ name.chars := List.mem_cons_of_mem _
      (by rw [hsplit]; exact List.mem_append_right front List.mem_cons_self)
    have hrun : (name.more ++ rest).takeWhile isAttributeChar = front := by
      rw [hsplit, List.append_assoc, List.takeWhile_append_of_pos hfront, List.cons_append,
        List.takeWhile_cons_of_neg (by rw [hc]; exact Bool.false_ne_true), List.append_nil]
    have hrest : (name.more ++ rest).drop front.length = c :: (back ++ rest) := by
      rw [hsplit, List.append_assoc, List.drop_left, List.cons_append]
    have htrimmed : (c :: (back ++ rest)).dropWhile isTrimmed = c :: (back ++ rest) :=
      List.dropWhile_cons_of_neg (by rw [isTrimmed_of_name hmem]; exact Bool.false_ne_true)
    have hequals : c ≠ '=' := name_ne hmem (by decide)
    simp only [if_pos hstart, hrun, hrest, htrimmed]
    split
    · rename_i heq
      exact absurd (List.cons.inj heq).1 hequals
    · rfl
  · exact if_neg hstart

/-- A pass of a loop over the text that is left. -/
theorem unread_succ {σ : Type} (rest : σ → List Char) {body : σ → Reader σ} {s : σ}
    (h : rest s ≠ []) :
    Loop.whileLoop .stuck (fun s => !(rest s).isEmpty) body (passes + 1) s =
      body s >>= Loop.whileLoop .stuck (fun s => !(rest s).isEmpty) body passes :=
  Loop.whileLoop_succ (by rw [List.isEmpty_eq_false_iff.mpr h]; rfl)

section Tags

variable (toLowerCase : List Char → List Char)

/-- What the scanner keeps of an attribute. -/
def entryOf (a : Attribute) : List Char × List Char :=
  (localLower toLowerCase a.name.chars, a.meaning)

/-- What the scanner keeps of a tag. -/
def elementOf (t : Tag) : XmlElement :=
  ⟨localLower toLowerCase t.name.chars, t.attributes.map (entryOf toLowerCase)⟩

/-- What comes to a pass of the loop over the attributes. -/
theorem nextAttribute_eq_ok (a : Attribute) {tail : List Char} :
    nextAttribute toLowerCase ⟨known, a.write ++ tail⟩ = .ok s ↔
      (Ascii a.name ∧ localLower toLowerCase a.name.chars ∉ known.map Prod.fst) ∧
        s = ⟨known ++ [entryOf toLowerCase a], tail⟩ := by
  have hrest : (a.write ++ tail).dropWhile isTrimmed = a.name.chars ++ (a.before.chars ++ '=' ::
      (a.behind.chars ++ a.quote.char :: (a.valueText ++ a.quote.char :: tail))) := by
    have hfirst : ¬isTrimmed a.name.first = true := by
      rw [isTrimmed_of_name List.mem_cons_self]
      exact Bool.false_ne_true
    rw [Attribute.write, List.append_assoc,
      List.dropWhile_append_of_pos fun c hc => isTrimmed_of_space hc, List.append_assoc, Name.chars,
      List.cons_append, List.dropWhile_cons_of_neg hfirst]
    simp only [List.append_assoc, List.cons_append, List.nil_append]
  have hne : (a.write ++ tail).dropWhile isTrimmed ≠ [] := by
    rw [hrest]
    exact List.cons_ne_nil _ _
  rw [nextAttribute]
  simp only [if_neg hne]
  rw [hrest]
  by_cases hascii : Ascii a.name
  · have hvalue : decodeXmlEntities a.valueText = .ok a.meaning := decodeXmlEntities_value a.value
    rw [attributeAt_ascii a hascii]
    simp only [orThrow, ok_bind, breakOn_char tail (quote_not_mem a), hvalue, bind_eq_ok,
      failIf_eq_ok]
    have hany : (known.any fun entry => entry.1 = localLower toLowerCase a.name.chars) = true ↔
        localLower toLowerCase a.name.chars ∈ known.map Prod.fst := by
      simp only [List.any_eq_true, decide_eq_true_eq, List.mem_map]
    constructor
    · rintro ⟨-, hnew, hs⟩
      exact ⟨⟨hascii, fun hmem => hnew (hany.mpr hmem)⟩, (Except.ok.inj hs).symm⟩
    · rintro ⟨⟨-, hnew⟩, rfl⟩
      exact ⟨(), fun hmem => hnew (hany.mp hmem), rfl⟩
  · rw [attributeAt_beyond hascii]
    refine ⟨fun h => ?_, fun h => absurd h.1.1 hascii⟩
    cases h

theorem attribute_ne (a : Attribute) : a.write ≠ [] := by
  rw [Attribute.write]
  exact List.append_ne_nil_of_left_ne_nil a.space_ne _

/-- The loop over the attributes, by induction on them. -/
theorem attributes_run (attributes : List Attribute) (hpasses : attributes.length ≤ passes) :
    Loop.whileLoop .stuck (fun s : Attributes => !s.rest.isEmpty) (nextAttribute toLowerCase) passes
        ⟨known, attributes.flatMap Attribute.write⟩ = .ok s ↔
      ((∀ a ∈ attributes, Ascii a.name ∧
          localLower toLowerCase a.name.chars ∉ known.map Prod.fst) ∧
        (attributes.map fun a => localLower toLowerCase a.name.chars).Nodup) ∧
      s = ⟨known ++ attributes.map (entryOf toLowerCase), []⟩ := by
  induction attributes generalizing known passes with
  | nil =>
    have hnil : known ++ ([] : List Attribute).map (entryOf toLowerCase) = known :=
      List.append_nil _
    rw [List.flatMap_nil, Loop.whileLoop_done rfl, hnil]
    exact ⟨fun h => ⟨⟨nofun, List.nodup_nil⟩, (Except.ok.inj h).symm⟩, fun h => by rw [h.2]⟩
  | cons a attributes ih =>
    obtain ⟨passes, rfl⟩ : ∃ n, passes = n + 1 :=
      ⟨passes - 1, by rw [List.length_cons] at hpasses; omega⟩
    have hpasses' : attributes.length ≤ passes := Nat.le_of_succ_le_succ hpasses
    have hne : a.write ++ attributes.flatMap Attribute.write ≠ [] :=
      List.append_ne_nil_of_left_ne_nil (attribute_ne a) _
    rw [List.flatMap_cons, unread_succ Attributes.rest hne, bind_eq_ok]
    simp only [nextAttribute_eq_ok]
    constructor
    · rintro ⟨s₁, ⟨hhere, rfl⟩, hrest⟩
      obtain ⟨⟨hall, hnodup⟩, rfl⟩ := (ih hpasses').mp hrest
      simp only [List.map_append, List.mem_append, List.map_cons, List.map_nil,
        List.mem_singleton, not_or] at hall
      refine ⟨⟨List.forall_mem_cons.mpr ⟨hhere, fun b hb => ⟨(hall b hb).1, (hall b hb).2.1⟩⟩,
        List.nodup_cons.mpr ⟨fun hmem => ?_, hnodup⟩⟩, ?_⟩
      · obtain ⟨b, hb, heq⟩ := List.mem_map.mp hmem
        exact (hall b hb).2.2 heq
      · rw [List.map_cons, List.append_assoc, List.singleton_append]
    · rintro ⟨⟨hall, hnodup⟩, rfl⟩
      obtain ⟨hhere, hbehind⟩ := List.forall_mem_cons.mp hall
      obtain ⟨hnew, hnodup⟩ := List.nodup_cons.mp hnodup
      refine ⟨_, ⟨hhere, rfl⟩, (ih hpasses').mpr ⟨⟨fun b hb => ⟨(hbehind b hb).1, ?_⟩, hnodup⟩, ?_⟩⟩
      · rw [List.map_append, List.mem_append, not_or]
        exact ⟨(hbehind b hb).2, fun hmem =>
          hnew (List.mem_map.mpr ⟨b, hb, List.mem_singleton.mp hmem⟩)⟩
      · rw [List.map_cons, List.append_assoc, List.singleton_append]

/-- Attributes are of ASCII, and no two have one local name, in lower case. -/
def Distinct (t : Tag) : Prop :=
  (∀ a ∈ t.attributes, Ascii a.name) ∧
    (t.attributes.map fun a => localLower toLowerCase a.name.chars).Nodup

theorem parseAttributes_eq_ok (t : Tag) {result : List (List Char × List Char)} :
    parseAttributes toLowerCase (t.attributes.flatMap Attribute.write) = .ok result ↔
      Distinct toLowerCase t ∧ result = t.attributes.map (entryOf toLowerCase) := by
  have hlength : t.attributes.length ≤ (t.attributes.flatMap Attribute.write).length + 1 := by
    induction t.attributes with
    | nil => exact Nat.zero_le _
    | cons a attributes ih =>
      have hpos := List.length_pos_iff.mpr (attribute_ne a)
      rw [List.flatMap_cons, List.length_append, List.length_cons]
      omega
  rw [parseAttributes, bind_eq_ok]
  simp only [attributes_run toLowerCase t.attributes hlength, List.nil_append, List.map_nil,
    List.not_mem_nil, not_false_eq_true, and_true]
  constructor
  · rintro ⟨s, ⟨hdistinct, rfl⟩, hresult⟩
    exact ⟨hdistinct, (Except.ok.inj hresult).symm⟩
  · rintro ⟨hdistinct, rfl⟩
    exact ⟨_, ⟨hdistinct, rfl⟩, rfl⟩

/-- **What becomes of a tag.** -/
theorem parseTag_eq_ok (t : Tag) {element : XmlElement} :
    parseTag toLowerCase t.body = .ok element ↔
      Distinct toLowerCase t ∧ element = elementOf toLowerCase t := by
  have hrun : ∀ c ∈ t.name.chars, (!isTrimmed c && c ≠ '/' && c ≠ '>') = true := by
    intro c hc
    simp [isTrimmed_of_name hc, name_ne hc (show '/'.toNat ∈ marks by decide),
      name_ne hc (show '>'.toNat ∈ marks by decide)]
  have hstop : (t.attributes.flatMap Attribute.write).takeWhile
      (fun c => !isTrimmed c && c ≠ '/' && c ≠ '>') = [] := by
    cases t.attributes with
    | nil => rfl
    | cons a attributes =>
      obtain ⟨c, cs, hspace⟩ := List.exists_cons_of_ne_nil a.space_ne
      have hmem : c ∈ a.space.chars := by rw [hspace]; exact List.mem_cons_self
      have hc : isTrimmed c = true := isTrimmed_of_space hmem
      rw [List.flatMap_cons, Attribute.write, hspace, List.cons_append, List.cons_append]
      exact List.takeWhile_cons_of_neg (by rw [hc]; exact Bool.false_ne_true)
  have hname :
      (inner t).takeWhile (fun c => !isTrimmed c && c ≠ '/' && c ≠ '>') = t.name.chars := by
    rw [inner, List.takeWhile_append_of_pos hrun, hstop, List.append_nil]
  have hattributes : (inner t).drop t.name.chars.length = t.attributes.flatMap Attribute.write := by
    rw [inner, List.drop_left]
  have hne : ¬t.name.chars = [] := List.cons_ne_nil _ _
  rw [parseTag]
  simp only [raw_body, hname, hattributes]
  rw [failIf_bind hne, bind_eq_ok]
  simp only [parseAttributes_eq_ok]
  constructor
  · rintro ⟨result, ⟨hdistinct, rfl⟩, helement⟩
    exact ⟨hdistinct, (Except.ok.inj helement).symm⟩
  · rintro ⟨hdistinct, rfl⟩
    exact ⟨_, ⟨hdistinct, rfl⟩, rfl⟩

end Tags

end MailPortal.Documents
