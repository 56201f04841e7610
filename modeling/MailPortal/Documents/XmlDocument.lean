import MailPortal.Documents.XmlScanning

/-!
# Every Tag Is Seen

The scanner finds the elements of a document in order, whatever comments, instructions and the
values of attributes contain. It fails on documents whose tags have attributes that it cannot tell
apart or whose names it does not take for names, and where something looks like a declaration.

Main results:

* `contained_nextMarkup` : a pass returns or refuses, and moves on.
* `parseXmlElements_document` : the documents whose elements are found, and that every other text is
  refused.
-/

namespace MailPortal.Documents

open Failure Xml

variable {elements : List XmlElement}
variable {word text behind leading chars : List Char} {s : Scanned} {passes : ℕ}

section Passes

variable (toLowerCase : List Char → List Char)

/-! ### Passes over a document -/

theorem skipPast_eq {before : List Char} (h : breakOn word text = some (before, behind)) :
    skipPast word text = .ok behind := by
  rw [skipPast, h]
  rfl

/-- A pass goes to the next markup. -/
theorem nextMarkup_open (behind : List Char) (h : '<' ∉ leading) :
    nextMarkup toLowerCase ⟨elements, leading ++ '<' :: behind⟩ =
      nextMarkup toLowerCase ⟨elements, '<' :: behind⟩ := by
  have hhere : breakOn ['<'] ('<' :: behind) = some ([], behind) := rfl
  rw [nextMarkup, nextMarkup, breakOn_char behind h, hhere]

theorem nextMarkup_comment (rest : List Char) (h : ¬['-', '-'] <:+: chars)
    (hlast : chars.getLast? ≠ some '-') :
    nextMarkup toLowerCase ⟨elements, (Item.comment chars h hlast).write ++ rest⟩ =
      .ok ⟨elements, rest⟩ := by
  have hskip : skipPast ['-', '-', '>'] (chars ++ ['-', '-', '>'] ++ rest) = .ok rest :=
    skipPast_eq (breakOn_comment rest h hlast)
  calc nextMarkup toLowerCase ⟨elements, (Item.comment chars h hlast).write ++ rest⟩
      = skipPast ['-', '-', '>'] (chars ++ ['-', '-', '>'] ++ rest) >>=
          fun rest => .ok ⟨elements, rest⟩ := rfl
    _ = .ok ⟨elements, rest⟩ := by rw [hskip, ok_bind]

theorem nextMarkup_instruction (rest : List Char) (h : ¬['?', '>'] <:+: chars) :
    nextMarkup toLowerCase ⟨elements, (Item.instruction chars h).write ++ rest⟩ =
      .ok ⟨elements, rest⟩ := by
  have hskip : skipPast ['?', '>'] (chars ++ ['?', '>'] ++ rest) = .ok rest :=
    skipPast_eq (breakOn_instruction rest h)
  calc nextMarkup toLowerCase ⟨elements, (Item.instruction chars h).write ++ rest⟩
      = skipPast ['?', '>'] (chars ++ ['?', '>'] ++ rest) >>=
          fun rest => .ok ⟨elements, rest⟩ := rfl
    _ = .ok ⟨elements, rest⟩ := by rw [hskip, ok_bind]

theorem nextMarkup_endTag (name : Name) (space : Space) (rest : List Char) :
    nextMarkup toLowerCase ⟨elements, (Item.endTag name space).write ++ rest⟩ =
      .ok ⟨elements, rest⟩ := by
  have hclose : '>' ∉ name.chars ++ space.chars := by
    rw [List.mem_append, not_or]
    exact ⟨fun h => name_ne h (by decide) rfl, fun h => space_ne h (by decide) rfl⟩
  have htext : name.chars ++ (space.chars ++ ['>']) ++ rest =
      name.chars ++ space.chars ++ '>' :: rest := by
    simp only [List.append_assoc, List.cons_append, List.nil_append]
  have hskip : skipPast ['>'] (name.chars ++ (space.chars ++ ['>']) ++ rest) = .ok rest := by
    rw [htext]
    exact skipPast_eq (breakOn_char rest hclose)
  calc nextMarkup toLowerCase ⟨elements, (Item.endTag name space).write ++ rest⟩
      = skipPast ['>'] (name.chars ++ (space.chars ++ ['>']) ++ rest) >>=
          fun rest => .ok ⟨elements, rest⟩ := rfl
    _ = .ok ⟨elements, rest⟩ := by rw [hskip, ok_bind]

theorem nextMarkup_tag (t : Tag) (rest : List Char) :
    nextMarkup toLowerCase ⟨elements, (Item.tag t).write ++ rest⟩ = .ok s ↔
      Distinct toLowerCase t ∧ s = ⟨elements ++ [elementOf toLowerCase t], rest⟩ := by
  obtain ⟨more, hbody⟩ : ∃ more, t.body = t.name.first :: more := ⟨_, rfl⟩
  have hfirst : t.name.first ∈ t.name.chars := List.mem_cons_self
  have hbang : ¬t.name.first = '!' := name_ne hfirst (by decide)
  have hquestion : ¬t.name.first = '?' := name_ne hfirst (by decide)
  have hslash : ¬t.name.first = '/' := name_ne hfirst (by decide)
  have hopen : breakOn ['<'] ((Item.tag t).write ++ rest) =
      some ([], t.name.first :: (more ++ '>' :: rest)) := by
    rw [Item.write, hbody, List.cons_append, List.append_assoc]
    rfl
  have hscan : scanTag none (t.name.first :: (more ++ '>' :: rest)) = some (t.body, rest) := by
    rw [← List.cons_append, ← hbody, scanTag_body]
  have hword : ∀ {w : Char} {ws cs : List Char}, ¬t.name.first = w →
      (w :: ws).isPrefixOf (t.name.first :: cs) = false := by
    intro w ws cs hne
    rw [List.isPrefixOf, beq_eq_false_iff_ne.mpr (Ne.symm hne), Bool.false_and]
  rw [nextMarkup, hopen]
  simp only [hword hbang, hword hquestion, hword hslash, Bool.false_eq_true, if_false,
    hscan, orThrow,
    ok_bind, bind_eq_ok, parseTag_eq_ok]
  constructor
  · rintro ⟨element, ⟨hdistinct, rfl⟩, hs⟩
    exact ⟨hdistinct, (Except.ok.inj hs).symm⟩
  · rintro ⟨hdistinct, rfl⟩
    exact ⟨_, ⟨hdistinct, rfl⟩, rfl⟩

/-- The loop over the text, by induction on the items of the document. Character data is passed over
with the item behind it. -/
theorem document_run (document : List Item) (hleading : '<' ∉ leading)
    (hpasses : (leading ++ write document).length < passes) :
    Loop.whileLoop .stuck (fun s : Scanned => !s.rest.isEmpty) (nextMarkup toLowerCase) passes
        ⟨elements, leading ++ write document⟩ = .ok s ↔
      (∀ t ∈ tags document, Distinct toLowerCase t) ∧
        s = ⟨elements ++ (tags document).map (elementOf toLowerCase), []⟩ := by
  induction document generalizing elements leading passes with
  | nil =>
    have hend : Loop.whileLoop .stuck (fun s : Scanned => !s.rest.isEmpty) (nextMarkup toLowerCase)
        passes ⟨elements, leading⟩ = .ok ⟨elements, []⟩ := by
      cases leading with
      | nil => exact Loop.whileLoop_done rfl
      | cons c cs =>
        obtain ⟨passes, rfl⟩ : ∃ n, passes = n + 1 := ⟨passes - 1, by omega⟩
        rw [unread_succ Scanned.rest (List.cons_ne_nil c cs), nextMarkup, breakOn_none hleading]
        exact Loop.whileLoop_done rfl
    have hnil : elements ++ (tags []).map (elementOf toLowerCase) = elements := List.append_nil _
    rw [write, List.flatMap_nil, List.append_nil, hend, hnil]
    exact ⟨fun h => ⟨nofun, (Except.ok.inj h).symm⟩, fun h => by rw [h.2]⟩
  | cons item document ih =>
    have hwrite : write (item :: document) = item.write ++ write document := List.flatMap_cons
    rw [hwrite] at hpasses ⊢
    have hnil : '<' ∉ ([] : List Char) := List.not_mem_nil
    -- a pass over an item that begins with markup
    have hmarkup : ∀ {behind : List Char}, item.write = '<' :: behind →
        ∃ n, (write document).length < n ∧ (Loop.whileLoop .stuck
            (fun s : Scanned => !s.rest.isEmpty) (nextMarkup toLowerCase) passes
            ⟨elements, leading ++ (item.write ++ write document)⟩ = .ok s ↔
          ∃ s₁, nextMarkup toLowerCase ⟨elements, item.write ++ write document⟩ = .ok s₁ ∧
            Loop.whileLoop .stuck (fun s : Scanned => !s.rest.isEmpty) (nextMarkup toLowerCase) n
              s₁ = .ok s) := by
      intro behind hitem
      rw [hitem, List.length_append, List.length_append, List.length_cons] at hpasses
      refine ⟨passes - 1, by omega, ?_⟩
      obtain ⟨n, rfl⟩ : ∃ n, passes = n + 1 := ⟨passes - 1, by omega⟩
      have hne : leading ++ (item.write ++ write document) ≠ [] := by
        rw [hitem]
        exact List.append_ne_nil_of_right_ne_nil _ (List.cons_ne_nil _ _)
      rw [unread_succ Scanned.rest hne, bind_eq_ok, hitem, List.cons_append,
        nextMarkup_open toLowerCase _ hleading]
      rfl
    -- one that leaves the elements as they are
    have hskip : ∀ {behind : List Char}, item.write = '<' :: behind →
        nextMarkup toLowerCase ⟨elements, item.write ++ write document⟩ =
          .ok ⟨elements, write document⟩ →
        (Loop.whileLoop .stuck (fun s : Scanned => !s.rest.isEmpty) (nextMarkup toLowerCase) passes
            ⟨elements, leading ++ (item.write ++ write document)⟩ = .ok s ↔
          (∀ t ∈ tags document, Distinct toLowerCase t) ∧
            s = ⟨elements ++ (tags document).map (elementOf toLowerCase), []⟩) := by
      intro behind hitem hnext
      obtain ⟨n, hn, hpass⟩ := hmarkup hitem
      rw [hpass, hnext, ← ih hnil hn]
      exact ⟨fun ⟨_, heq, hrest⟩ => Except.ok.inj heq ▸ hrest, fun hrest => ⟨_, rfl, hrest⟩⟩
    cases item with
    | text chars h =>
      rw [Item.write, ← List.append_assoc] at hpasses ⊢
      exact ih (by rw [List.mem_append, not_or]; exact ⟨hleading, h⟩) hpasses
    | comment chars h hlast => exact hskip rfl (nextMarkup_comment toLowerCase _ h hlast)
    | instruction chars h => exact hskip rfl (nextMarkup_instruction toLowerCase _ h)
    | endTag name space => exact hskip rfl (nextMarkup_endTag toLowerCase name space _)
    | tag t =>
      obtain ⟨n, hn, hpass⟩ := hmarkup rfl
      have hrest : ∀ elements : List XmlElement, Loop.whileLoop .stuck
          (fun s : Scanned => !s.rest.isEmpty) (nextMarkup toLowerCase) n
            ⟨elements, write document⟩ = .ok s ↔ _ :=
        fun elements => ih hnil hn
      have htags : tags (.tag t :: document) = t :: tags document := rfl
      rw [hpass, htags, List.map_cons]
      simp only [nextMarkup_tag]
      constructor
      · rintro ⟨s₁, ⟨hdistinct, rfl⟩, hloop⟩
        obtain ⟨hall, rfl⟩ := (hrest _).mp hloop
        exact ⟨List.forall_mem_cons.mpr ⟨hdistinct, hall⟩,
          by rw [List.append_assoc, List.singleton_append]⟩
      · rintro ⟨hall, rfl⟩
        obtain ⟨hdistinct, hall⟩ := List.forall_mem_cons.mp hall
        exact ⟨_, ⟨hdistinct, rfl⟩, (hrest _).mpr
          ⟨hall, by rw [List.append_assoc, List.singleton_append]⟩⟩

/-- **The documents whose elements are found.** -/
theorem parseXmlElements_eq_ok (document : List Item) :
    parseXmlElements toLowerCase (write document) = .ok elements ↔
      (hasDeclaration (write document) = false ∧
          ∀ t ∈ tags document, Distinct toLowerCase t) ∧
        elements = (tags document).map (elementOf toLowerCase) := by
  have hrun : ∀ s, Loop.whileLoop .stuck (fun s : Scanned => !s.rest.isEmpty)
      (nextMarkup toLowerCase) ((write document).length + 1) ⟨[], write document⟩ = .ok s ↔
      (∀ t ∈ tags document, Distinct toLowerCase t) ∧
        s = ⟨(tags document).map (elementOf toLowerCase), []⟩ :=
    fun s => document_run toLowerCase document List.not_mem_nil (Nat.lt_succ_self _)
  rw [parseXmlElements, bind_eq_ok]
  simp only [failIf_eq_ok, Bool.not_eq_true, bind_eq_ok, hrun]
  constructor
  · rintro ⟨-, hdeclaration, s, ⟨hall, rfl⟩, helements⟩
    exact ⟨⟨hdeclaration, hall⟩, (Except.ok.inj helements).symm⟩
  · rintro ⟨⟨hdeclaration, hall⟩, rfl⟩
    exact ⟨(), hdeclaration, _, ⟨hall, rfl⟩, rfl⟩

/-! ### Every text -/

theorem contained_decodeCodePoint (codePoint : ℕ) : Contained (decodeCodePoint codePoint) :=
  contained_bind contained_failIf fun _ _ => contained_ok _

theorem contained_decodeEntity (entity : Entity) : Contained (decodeEntity entity) := by
  cases entity with
  | decimal digits => exact contained_decodeCodePoint _
  | hexadecimal digits => exact contained_decodeCodePoint _
  | named name => exact contained_orThrow

theorem contained_replaceEntities (skip : ℕ) (text : List Char) :
    Contained (replaceEntities skip text) := by
  fun_induction replaceEntities skip text with
  | case1 => exact contained_ok _
  | case2 skip _ rest ih => exact ih
  | case3 c rest entity more hentity ih =>
    exact contained_bind (contained_decodeEntity entity) fun _ _ =>
      contained_bind ih fun _ _ => contained_ok _
  | case4 c rest hentity ih => exact contained_bind ih fun _ _ => contained_ok _

theorem contained_decodeXmlEntities (value : List Char) : Contained (decodeXmlEntities value) :=
  contained_bind contained_failIf fun _ _ => contained_replaceEntities 0 value

theorem scanTag_length {quote : Option Char} {raw rest : List Char}
    (h : scanTag quote text = some (raw, rest)) : rest.length < text.length := by
  induction text generalizing quote raw with
  | nil => cases quote <;> cases h
  | cons c cs ih =>
    have hmap : ∀ {quote : Option Char} {f : List Char × List Char → List Char × List Char},
        (scanTag quote cs).map f = some (raw, rest) → (∀ found, (f found).2 = found.2) →
          rest.length < (c :: cs).length := by
      intro quote f hfound hbehind
      obtain ⟨⟨raw', rest'⟩, hrest, heq⟩ := Option.map_eq_some_iff.mp hfound
      obtain rfl : rest' = rest := (hbehind _).symm.trans (congrArg Prod.snd heq)
      exact Nat.lt_succ_of_lt (ih hrest)
    cases quote with
    | some quote =>
      rw [scanTag] at h
      exact hmap h fun _ => rfl
    | none =>
      rw [scanTag] at h
      split at h
      · exact hmap h fun _ => rfl
      · split at h
        · cases h
          exact Nat.lt_succ_self _
        · exact hmap h fun _ => rfl

theorem attributeAt_length {name : List Char} {quote : Char}
    (h : attributeAt text = some (name, quote, behind)) : behind.length < text.length := by
  cases text with
  | nil => cases h
  | cons c cs =>
    rw [attributeAt] at h
    split at h
    · have hmore := List.length_dropWhile_le isTrimmed
        (cs.drop (cs.takeWhile isAttributeChar).length)
      rw [List.length_drop] at hmore
      simp only at h
      split at h
      · rename_i equals hequals
        rw [hequals, List.length_cons] at hmore
        have hquote := List.length_dropWhile_le isTrimmed equals
        split at h
        · rename_i rest hrest
          rw [hrest, List.length_cons] at hquote
          split at h
          · obtain ⟨-, hbehind⟩ := Prod.mk.inj (Option.some.inj h)
            cases hbehind
            rw [List.length_cons]
            omega
          · cases h
        · cases h
      · cases h
    · cases h

/-- A pass over the attributes moves on. -/
theorem nextAttribute_moves {s s' : Attributes} (hne : s.rest ≠ [])
    (h : nextAttribute toLowerCase s = .ok s') : s'.rest.length < s.rest.length := by
  have htrimmed := List.length_dropWhile_le isTrimmed s.rest
  rw [nextAttribute] at h
  simp only at h
  split at h
  · cases h
    exact List.length_pos_iff.mpr hne
  · obtain ⟨⟨name, quote, behind⟩, hattribute, h⟩ := bind_eq_ok.mp h
    obtain ⟨⟨value, rest⟩, hvalue, h⟩ := bind_eq_ok.mp h
    obtain ⟨_, -, h⟩ := bind_eq_ok.mp h
    obtain ⟨decoded, -, h⟩ := bind_eq_ok.mp h
    cases h
    have hbehind := attributeAt_length (orThrow_eq_ok.mp hattribute)
    have hrest := breakOn_length (List.cons_ne_nil _ _) (orThrow_eq_ok.mp hvalue)
    exact Nat.lt_of_lt_of_le (Nat.lt_trans hrest hbehind) htrimmed

theorem contained_nextAttribute (s : Attributes) : Contained (nextAttribute toLowerCase s) := by
  rw [nextAttribute]
  exact contained_ite (fun _ => contained_ok _) fun _ =>
    contained_bind contained_orThrow fun _ _ => contained_bind contained_orThrow fun _ _ =>
      contained_bind contained_failIf fun _ _ =>
        contained_bind (contained_decodeXmlEntities _) fun _ _ => contained_ok _

/-- A loop over a text whose passes move on is contained. -/
theorem contained_unread {σ : Type} (rest : σ → List Char) {body : σ → Reader σ}
    (hmoves : ∀ s s', rest s ≠ [] → body s = .ok s' → (rest s').length < (rest s).length)
    (hbody : ∀ s, Contained (body s)) {s : σ} (hpasses : (rest s).length < passes) :
    Contained (Loop.whileLoop .stuck (fun s => !(rest s).isEmpty) body passes s) :=
  fun _ h => Loop.whileLoop_error (fun _ => True) (fun s => (rest s).length)
    (fun s s' _ hrun hpass => ⟨trivial, hmoves s s' (fun hnil => by simp [hnil] at hrun) hpass⟩)
    (fun s e _ _ => hbody s e) trivial hpasses h

theorem contained_parseTag (text : List Char) : Contained (parseTag toLowerCase text) := by
  rw [parseTag]
  refine contained_bind contained_failIf fun _ _ => contained_bind ?_ fun _ _ => contained_ok _
  exact contained_bind (contained_unread Attributes.rest
    (fun _ _ => nextAttribute_moves toLowerCase) (contained_nextAttribute toLowerCase)
    (Nat.lt_succ_self _)) fun _ _ => contained_ok _

theorem skipPast_length (hword : word ≠ []) (h : skipPast word text = .ok behind) :
    behind.length < text.length := by
  obtain ⟨⟨before, rest⟩, hfound, rfl⟩ := Option.map_eq_some_iff.mp (orThrow_eq_ok.mp h)
  exact breakOn_length hword hfound

/-- A pass over the text moves on. -/
theorem nextMarkup_moves {s' : Scanned} (hne : s.rest ≠ [])
    (h : nextMarkup toLowerCase s = .ok s') :
    s'.rest.length < s.rest.length := by
  have hskip : ∀ {word behind : List Char} {n : ℕ} {elements : List XmlElement}, word ≠ [] →
      behind.length < s.rest.length →
      (skipPast word (behind.drop n) >>= fun rest => .ok ⟨elements, rest⟩) = .ok s' →
        s'.rest.length < s.rest.length := by
    intro word behind n elements hword hbehind hs
    obtain ⟨rest, hrest, hs⟩ := bind_eq_ok.mp hs
    cases hs
    have hlength := skipPast_length hword hrest
    rw [List.length_drop] at hlength
    exact Nat.lt_of_lt_of_le hlength (by omega)
  rw [nextMarkup] at h
  split at h
  · cases h
    exact List.length_pos_iff.mpr hne
  · rename_i before behind hopen
    have hbehind := breakOn_length (List.cons_ne_nil _ _) hopen
    split at h
    · exact hskip (List.cons_ne_nil _ _) hbehind h
    · split at h
      · exact hskip (List.cons_ne_nil _ _) hbehind h
      · split at h
        · exact hskip (List.cons_ne_nil _ _) hbehind h
        · split at h
          · exact absurd h nofun
          · obtain ⟨⟨text, rest⟩, hscan, h⟩ := bind_eq_ok.mp h
            obtain ⟨element, -, h⟩ := bind_eq_ok.mp h
            cases h
            exact Nat.lt_trans (scanTag_length (orThrow_eq_ok.mp hscan)) hbehind

theorem contained_nextMarkup (s : Scanned) : Contained (nextMarkup toLowerCase s) := by
  have hskip : ∀ {word text : List Char} {elements : List XmlElement},
      Contained (skipPast word text >>= fun rest => .ok (⟨elements, rest⟩ : Scanned)) :=
    contained_bind contained_orThrow fun _ _ => contained_ok _
  rw [nextMarkup]
  split
  · exact contained_ok _
  · exact contained_ite (fun _ => hskip) fun _ => contained_ite (fun _ => hskip) fun _ =>
      contained_ite (fun _ => hskip) fun _ => contained_ite (fun _ => contained_failure) fun _ =>
        contained_bind contained_orThrow fun _ _ =>
          contained_bind (contained_parseTag toLowerCase _) fun _ _ => contained_ok _

theorem contained_parseXmlElements (text : List Char) :
    Contained (parseXmlElements toLowerCase text) :=
  contained_bind contained_failIf fun _ _ => contained_bind (contained_unread Scanned.rest
    (fun _ _ => nextMarkup_moves toLowerCase) (contained_nextMarkup toLowerCase)
    (Nat.lt_succ_self _)) fun _ _ => contained_ok _

end Passes

/-- **Every tag is seen**, in the documents where the scanner can tell the attributes of a tag apart
and nothing looks like a declaration; every other document, and every text that it does not take, is
refused. The names of the items have neither U+1680 nor U+FEFF (`Xml.isStartCode`). -/
theorem parseXmlElements_document (toLowerCase : List Char → List Char) (document : List Item)
    (text : List Char) :
    (parseXmlElements toLowerCase (write document) =
        .ok ((tags document).map (elementOf toLowerCase)) ↔
      hasDeclaration (write document) = false ∧ ∀ t ∈ tags document, Distinct toLowerCase t) ∧
    Contained (parseXmlElements toLowerCase text) := by
  refine ⟨?_, contained_parseXmlElements toLowerCase text⟩
  rw [parseXmlElements_eq_ok]
  exact and_iff_left rfl

/-- An attribute `id` with a prefix and a value of one character each. -/
def idAttribute (first value : Char) (hfirst : isStartCode first.toNat = true)
    (hvalue : value ≠ '<' ∧ value ≠ '&' ∧ value ≠ APOSTROPHE) : Attribute where
  space := ⟨[' '], List.all_eq_true.mp rfl⟩
  space_ne := List.cons_ne_nil _ _
  name := ⟨first, [':', 'i', 'd'], hfirst, List.all_eq_true.mp rfl⟩
  before := ⟨[], nofun⟩
  behind := ⟨[], nofun⟩
  quote := .single
  value := [.literal value hvalue]

/-- Two attributes of one local name, in two namespaces, are refused. -/
theorem two_prefixes_refused : ∃ document : List Item,
    write document = "<a x:id='1' y:id='2'/>".toList ∧
      hasDeclaration (write document) = false ∧
      parseXmlElements (List.map Char.toLower) (write document) = failure .invalid_container :=
  ⟨[.tag {
    name := ⟨'a', [], by decide, nofun⟩
    attributes := [idAttribute 'x' '1' (by decide) (by decide),
      idAttribute 'y' '2' (by decide) (by decide)]
    space := ⟨[], nofun⟩
    empty := true
    unique := by decide }], by decide, by decide, by decide⟩

end MailPortal.Documents
