import MailPortal.Documents.XmlScanner

/-!
# What the Scanner Finds

The parts of the scanner on the parts of a document: the search for a word behind content that does
not have it, and the references in the value of an attribute.

Main results:

* `breakOn_append` : a word is found behind content without it.
* `decodeXmlEntities_value` : the value of an attribute is decoded.
-/

namespace MailPortal.Documents

open Failure Xml

variable {word text before : List Char} {c : Char}
variable {behind chars : List Char} {isClass : Char → Bool} {quote : Quote}

/-! ### Words -/

/-- What is found is in the text. -/
theorem breakOn_eq_some (h : breakOn word text = some (before, behind)) :
    text = before ++ (word ++ behind) := by
  induction text generalizing before with
  | nil => exact absurd h nofun
  | cons c cs ih =>
    rw [breakOn] at h
    split at h
    · rename_i hprefix
      obtain ⟨rest, hrest⟩ := List.isPrefixOf_iff_prefix.mp hprefix
      cases h
      rw [← hrest, List.drop_left, List.nil_append]
    · obtain ⟨⟨before', behind'⟩, hfound, heq⟩ := Option.map_eq_some_iff.mp h
      cases heq
      rw [ih hfound, List.cons_append]

theorem breakOn_length (hword : word ≠ []) (h : breakOn word text = some (before, behind)) :
    behind.length < text.length := by
  have hpos := List.length_pos_iff.mpr hword
  rw [breakOn_eq_some h, List.length_append, List.length_append]
  omega

/-- **A word is found** behind content where it does not begin. -/
theorem breakOn_append (behind : List Char) (hword : word ≠ [])
    (h : ∀ front back, before = front ++ back → back ≠ [] → ¬word <+: back ++ (word ++ behind)) :
    breakOn word (before ++ (word ++ behind)) = some (before, behind) := by
  induction before with
  | nil =>
    obtain ⟨w, ws, rfl⟩ := List.exists_cons_of_ne_nil hword
    rw [List.nil_append, List.cons_append, breakOn, if_pos, ← List.cons_append, List.drop_left]
    exact List.isPrefixOf_iff_prefix.mpr (List.prefix_append _ _)
  | cons c before ih =>
    have hhere : ¬word.isPrefixOf (c :: (before ++ (word ++ behind))) = true := fun hprefix =>
      h [] (c :: before) rfl (List.cons_ne_nil _ _) (List.isPrefixOf_iff_prefix.mp hprefix)
    rw [List.cons_append, breakOn, if_neg hhere, ih fun front back hsplit hne =>
      h (c :: front) back (by rw [hsplit, List.cons_append]) hne]
    rfl

theorem breakOn_char (behind : List Char) (h : c ∉ before) :
    breakOn [c] (before ++ c :: behind) = some (before, behind) := by
  refine breakOn_append behind (List.cons_ne_nil _ _) fun front back hsplit hne hprefix => ?_
  obtain ⟨b, bs, rfl⟩ := List.exists_cons_of_ne_nil hne
  obtain rfl := (List.cons_prefix_cons.mp hprefix).1
  exact h (by rw [hsplit]; exact List.mem_append_right front List.mem_cons_self)

theorem breakOn_none (h : c ∉ text) : breakOn [c] text = none := by
  induction text with
  | nil => rfl
  | cons d ds ih =>
    have hd : ¬[c].isPrefixOf (d :: ds) = true := fun hprefix =>
      List.ne_of_not_mem_cons h (List.cons_prefix_cons.mp (List.isPrefixOf_iff_prefix.mp hprefix)).1
    rw [breakOn, if_neg hd, ih (List.not_mem_of_not_mem_cons h)]
    rfl

/-- The end of a comment. -/
theorem breakOn_comment (behind : List Char) (h : ¬['-', '-'] <:+: chars)
    (hlast : chars.getLast? ≠ some '-') :
    breakOn ['-', '-', '>'] (chars ++ ['-', '-', '>'] ++ behind) = some (chars, behind) := by
  rw [List.append_assoc]
  refine breakOn_append behind (List.cons_ne_nil _ _) fun front back hsplit hne hprefix => ?_
  obtain ⟨b, bs, rfl⟩ := List.exists_cons_of_ne_nil hne
  obtain ⟨rfl, hrest⟩ := List.cons_prefix_cons.mp hprefix
  cases bs with
  | nil => exact hlast (by rw [hsplit, List.getLast?_concat])
  | cons c cs =>
    obtain ⟨rfl, -⟩ := List.cons_prefix_cons.mp hrest
    exact h ⟨front, cs, by rw [hsplit, List.append_assoc]; rfl⟩

/-- The end of an instruction. -/
theorem breakOn_instruction (behind : List Char) (h : ¬['?', '>'] <:+: chars) :
    breakOn ['?', '>'] (chars ++ ['?', '>'] ++ behind) = some (chars, behind) := by
  rw [List.append_assoc]
  refine breakOn_append behind (List.cons_ne_nil _ _) fun front back hsplit hne hprefix => ?_
  obtain ⟨b, bs, rfl⟩ := List.exists_cons_of_ne_nil hne
  obtain ⟨rfl, hrest⟩ := List.cons_prefix_cons.mp hprefix
  cases bs with
  | nil => exact absurd (List.cons_prefix_cons.mp hrest).1 (by decide)
  | cons c cs =>
    obtain ⟨rfl, -⟩ := List.cons_prefix_cons.mp hrest
    exact h ⟨front, cs, by rw [hsplit, List.append_assoc]; rfl⟩

/-! ### References -/

theorem runBefore_eq {run : List Char} (rest : List Char) (hne : run ≠ [])
    (hrun : ∀ c ∈ run, isClass c = true) (hsemi : isClass ';' = false) :
    runBefore isClass (run ++ ';' :: rest) = some run := by
  have htake : (run ++ ';' :: rest).takeWhile isClass = run := by
    rw [List.takeWhile_append_of_pos hrun,
      List.takeWhile_cons_of_neg (by rw [hsemi]; exact Bool.false_ne_true), List.append_nil]
  unfold runBefore
  simp only [htake, List.drop_left]
  exact if_pos ⟨hne, rfl⟩

theorem runBefore_none (rest : List Char) (hc : isClass c = false) :
    runBefore isClass (c :: rest) = none := by
  unfold runBefore
  simp only [List.takeWhile_cons, hc, Bool.false_eq_true, if_false]
  exact if_neg fun h => h.1 rfl

theorem entityAt_of_ne (h : c ≠ '&') (rest : List Char) : entityAt (c :: rest) = none := by
  unfold entityAt
  split
  · rename_i heq
    exact absurd (List.cons.inj heq).1 h
  · rename_i heq
    exact absurd (List.cons.inj heq).1 h
  · rfl

/-- The entity of a reference. -/
def entityOf : Reference → Entity
  | .predefined entity => .named entity.name
  | .decimal digits _ _ _ => .decimal digits
  | .hexadecimal digits _ _ _ => .hexadecimal digits

theorem entityNamed_predefined (entity : Predefined) :
    entityNamed (entity.name.map Char.toLower) = some entity.char := by
  cases entity <;> decide

theorem predefined_letters (entity : Predefined) : ∀ c ∈ entity.name, isLetter c = true := by
  have hall : entity.name.all isLetter = true := by cases entity <;> decide
  exact List.all_eq_true.mp hall

theorem entityAt_number (text : List Char) : entityAt ('&' :: '#' :: text) =
    match runBefore Xml.isDecimal text with
    | some digits => some (.decimal digits, digits.length + 2)
    | none =>
      match text with
      | x :: text =>
        if x = 'x' ∨ x = 'X' then
          (runBefore Xml.isHexadecimal text).map fun digits =>
            (.hexadecimal digits, digits.length + 3)
        else none
      | [] => none := rfl

/-- A reference begins with `&`, and the pattern matches all of it. -/
theorem entityAt_reference (r : Reference) (rest : List Char) : ∃ more, r.write = '&' :: more ∧
    entityAt ('&' :: (more ++ rest)) = some (entityOf r, more.length) := by
  cases r with
  | predefined entity =>
    refine ⟨entity.name ++ [';'], rfl, ?_⟩
    have hne : entity.name ≠ [] := by cases entity <;> exact List.cons_ne_nil _ _
    have hrun : runBefore isLetter (entity.name ++ ';' :: rest) = some entity.name :=
      runBefore_eq rest hne (predefined_letters entity) (by decide)
    have hentity : entityAt ('&' :: (entity.name ++ ';' :: rest)) =
        (runBefore isLetter (entity.name ++ ';' :: rest)).bind fun name =>
          if (entityNamed (name.map Char.toLower)).isSome then some (.named name, name.length + 1)
          else none := by cases entity <;> rfl
    rw [List.append_assoc, List.singleton_append, hentity, hrun, Option.bind_some,
      entityNamed_predefined, List.length_append]
    rfl
  | decimal digits hne hdigits _ =>
    refine ⟨'#' :: (digits ++ [';']), rfl, ?_⟩
    have hrun : runBefore Xml.isDecimal (digits ++ ';' :: rest) = some digits :=
      runBefore_eq rest hne hdigits (by decide)
    rw [List.cons_append, List.append_assoc, List.singleton_append, entityAt_number, hrun]
    simp only [List.length_cons, List.length_append]
    rfl
  | hexadecimal digits hne hdigits _ =>
    refine ⟨'#' :: 'x' :: (digits ++ [';']), rfl, ?_⟩
    have hrun : runBefore Xml.isHexadecimal (digits ++ ';' :: rest) = some digits :=
      runBefore_eq rest hne hdigits (by decide)
    rw [List.cons_append, List.cons_append, List.append_assoc, List.singleton_append,
      entityAt_number, runBefore_none _ (by decide)]
    simp only [true_or, if_true, hrun, Option.map_some, List.length_cons, List.length_append]
    rfl

theorem decodeCodePoint_character {n : ℕ} (h : IsCharacter n) :
    decodeCodePoint n = .ok (Char.ofNat n) := by
  unfold decodeCodePoint
  rw [failIf_bind]
  · rfl
  · rw [MAX_SAFE_INTEGER]
    rcases h with h | h | h | h | h | h <;> omega

theorem decodeEntity_reference (r : Reference) : decodeEntity (entityOf r) = .ok r.meaning := by
  cases r with
  | predefined entity =>
    rw [entityOf, decodeEntity, entityNamed_predefined]
    rfl
  | decimal digits _ _ hchar => exact decodeCodePoint_character hchar
  | hexadecimal digits _ _ hchar => exact decodeCodePoint_character hchar

/-! ### Values -/

theorem replaceEntities_skip (word rest : List Char) :
    replaceEntities word.length (word ++ rest) = replaceEntities 0 rest := by
  induction word with
  | nil => rfl
  | cons c word ih => exact ih

theorem replaceEntities_part (part : ValuePart quote) (rest : List Char) :
    replaceEntities 0 (part.write ++ rest) =
      replaceEntities 0 rest >>= fun behind => .ok (part.meaning :: behind) := by
  cases part with
  | literal c h =>
    rw [ValuePart.write, List.singleton_append, replaceEntities, entityAt_of_ne h.2.1]
    rfl
  | reference r =>
    obtain ⟨more, hwrite, hentity⟩ := entityAt_reference r rest
    rw [ValuePart.write, hwrite, List.cons_append, replaceEntities, hentity]
    simp only [decodeEntity_reference, ok_bind, replaceEntities_skip]
    rfl

/-- What is left of a part when the references are taken out. -/
def ValuePart.ownText {quote : Quote} : ValuePart quote → List Char
  | .literal c _ => [c]
  | .reference _ => []

/-- **The value of an attribute** is decoded. -/
theorem decodeXmlEntities_value (value : List (ValuePart quote)) :
    decodeXmlEntities (value.flatMap ValuePart.write) = .ok (value.map ValuePart.meaning) := by
  have hremoved : Replace.replaceAll (fun text => (entityAt text).map fun found => ([], found.2))
      (value.flatMap ValuePart.write) = value.flatMap ValuePart.ownText := by
    refine Replace.replaceAll_flatMap fun part _ rest => ?_
    cases part with
    | literal c h => exact Replace.replaceAll_cons (by rw [entityAt_of_ne h.2.1]; rfl)
    | reference r =>
      obtain ⟨more, hwrite, hentity⟩ := entityAt_reference r rest
      rw [ValuePart.write, hwrite]
      exact Replace.replaceAll_match (by rw [hentity]; rfl)
  have hamp : '&' ∉ value.flatMap ValuePart.ownText := by
    intro hmem
    obtain ⟨part, -, hin⟩ := List.mem_flatMap.mp hmem
    cases part with
    | literal c h => exact h.2.1 (List.mem_singleton.mp hin).symm
    | reference r => cases hin
  have hreplace : replaceEntities 0 (value.flatMap ValuePart.write) =
      .ok (value.map ValuePart.meaning) := by
    clear hremoved hamp
    induction value with
    | nil => rfl
    | cons part value ih =>
      rw [List.flatMap_cons, replaceEntities_part, ih]
      rfl
  unfold decodeXmlEntities
  simp only [hremoved]
  rw [failIf_bind hamp, hreplace]

end MailPortal.Documents
