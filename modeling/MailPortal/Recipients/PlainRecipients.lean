import MailPortal.Lib.Separated
import MailPortal.Recipients.ReadBack

/-!
# Plain Recipients

A recipient is plain when there is nothing in it that the reader takes away or looks into: no quote,
comment or bracket, and where there is an at-sign only one word, without a prefix and without quotes
around it. Plain recipients stand for themselves. A valid address is plain unless it begins with an
apostrophe, and so is all that is read in a text without any of these characters.

Main results:

* `IsPlain.standsAlone` : a plain recipient stands for itself.
* `isPlain_of_valid` : a valid address is plain.
* `parseRecipientText_parts` : a text is read back if each part of it is kept or gives plain
  recipients.
* `parts_of_plain_text` : in a plain text that is so.
-/

namespace MailPortal.Recipients

open Utf16

variable {token : Token} {address : Units}

/-- `:` -/
abbrev COLON : UInt16 := 0x3A

variable {u : UInt16} {text part rest recipient : Units}

/-! ### The words of a text -/

theorem tokens_skip (skip : ℕ) (text : Units) : tokens skip text = tokens 0 (text.drop skip) := by
  induction text generalizing skip with
  | nil => rw [List.drop_nil]; cases skip <;> rfl
  | cons u text ih =>
    cases skip with
    | zero => rfl
    | succ skip => exact ih skip

theorem tokens_word (hne : text ≠ []) (h : ∀ u ∈ text, isWordUnit u = true) :
    tokens 0 text = [.word text] := by
  obtain ⟨u, rest, rfl⟩ := List.exists_cons_of_ne_nil hne
  obtain ⟨hu, hrest⟩ := List.forall_mem_cons.mp h
  have hless : u ≠ LESS := by
    rintro rfl
    exact absurd hu (by decide)
  rw [tokens]
  rw [if_neg (not_and_of_not_left _ hless), if_pos hu, tokens_skip,
    List.takeWhile_eq_self_iff.mpr hrest, List.drop_length]
  rfl

/-- What is found in a text without brackets: words of it. -/
theorem word_of_token (hless : LESS ∉ text) {skip : ℕ} (h : token ∈ tokens skip text) :
    ∃ word, token = .word word ∧ word ≠ [] ∧ ∀ u ∈ word, isWordUnit u = true ∧ u ∈ text := by
  induction text generalizing skip with
  | nil => cases skip <;> cases h
  | cons u text ih =>
    have hrest : LESS ∉ text := fun hmem => hless (List.mem_cons_of_mem u hmem)
    have hlater : ∀ {skip}, token ∈ tokens skip text → ∃ word, token = .word word ∧ word ≠ [] ∧
        ∀ v ∈ word, isWordUnit v = true ∧ v ∈ u :: text := by
      intro skip hmem
      obtain ⟨word, hword, hne, hunits⟩ := ih hrest hmem
      exact ⟨word, hword, hne, fun v hv =>
        ⟨(hunits v hv).1, List.mem_cons_of_mem u (hunits v hv).2⟩⟩
    cases skip with
    | succ skip => exact hlater h
    | zero =>
      rw [tokens] at h
      have hbracket : u ≠ LESS := fun heq => hless (heq ▸ List.mem_cons_self)
      rw [if_neg (not_and_of_not_left _ hbracket)] at h
      split at h
      · rename_i hu
        rcases List.mem_cons.mp h with rfl | h
        · refine ⟨_, rfl, List.cons_ne_nil _ _, fun v hv => ?_⟩
          rcases List.mem_cons.mp hv with rfl | hv
          · exact ⟨hu, List.mem_cons_self⟩
          · exact ⟨List.mem_takeWhile_imp hv,
              List.mem_cons_of_mem u ((List.takeWhile_prefix _).subset hv)⟩
        · exact hlater h
      · exact hlater h

theorem withoutNamesAndComments_eq (hquote : QUOTE ∉ text) (hopen : OPEN ∉ text) :
    withoutNamesAndComments text = text := by
  have hnames : blankNames text = text := by
    refine Replace.replaceAll_of_none fun u hu rest => blankRule_none ?_ rest
    rintro rfl
    exact hquote hu
  rw [withoutNamesAndComments, hnames, List.count_eq_zero_of_not_mem hopen]
  rfl

/-! ### Bare words -/

theorem mem_of_mem_bareWord (h : u ∈ bareWord text) : u ∈ text := by
  have hmailto := Words.mem_of_mem_trimBoth h
  rw [withoutMailto] at hmailto
  split at hmailto
  · exact Words.mem_of_mem_trimBoth ((List.drop_sublist _ _).subset hmailto)
  · exact Words.mem_of_mem_trimBoth hmailto

theorem lowerUnit_ne_colon (h : u ≠ COLON) : lowerUnit u ≠ COLON := by
  rw [lowerUnit]
  split
  · rename_i hupper
    intro heq
    have hvalue : (u + 0x20).toNat = 0x3A := by rw [heq]; rfl
    rw [UInt16.toNat_add] at hvalue
    have hshift : (0x20 : UInt16).toNat = 0x20 := rfl
    omega
  · exact h

theorem withoutMailto_eq (htrimmed : trim text = text) (hcolon : COLON ∉ text) :
    withoutMailto text = text := by
  rw [withoutMailto, htrimmed]
  refine if_neg fun hstart => ?_
  have hmem : COLON ∈ (text.take 7).map lowerUnit := by rw [hstart]; decide
  obtain ⟨u, hu, heq⟩ := List.mem_map.mp hmem
  have hne : u ≠ COLON := fun h => hcolon (h ▸ List.mem_of_mem_take hu)
  exact lowerUnit_ne_colon hne heq

theorem isSpaceUnit_word (h : isWordUnit u = true) : isSpaceUnit u = false := by
  rw [isWordUnit, Bool.and_eq_true, Bool.not_eq_true'] at h
  exact h.1

theorem trim_of_word (h : ∀ u ∈ text, isWordUnit u = true) : trim text = text :=
  Words.trimBoth_of_ends (fun u hu => isSpaceUnit_word (h u (List.mem_of_head? hu)))
    fun u hu => isSpaceUnit_word (h u (List.mem_of_getLast? hu))

/-- A word without a prefix, and without quotes around it. -/
theorem bareWord_eq (hword : ∀ u ∈ text, isWordUnit u = true) (hcolon : COLON ∉ text)
    (hhead : ∀ u ∈ text.head?, isQuoteUnit u = false)
    (hlast : ∀ u ∈ text.getLast?, isQuoteUnit u = false) : bareWord text = text := by
  rw [bareWord, withoutMailto_eq (trim_of_word hword) hcolon]
  exact Words.trimBoth_of_ends hhead hlast

/-! ### Plain recipients -/

/-- Nothing is taken away from the recipient, and nothing is found in it but itself. -/
structure IsPlain (recipient : Units) : Prop where
  ne_nil : recipient ≠ []
  trimmed : trim recipient = recipient
  units : ∀ u ∈ recipient, IsNeutral u ∧ isSeparatorUnit u = false
  word : AT_SIGN ∈ recipient →
    (∀ u ∈ recipient, isWordUnit u = true) ∧ bareWord recipient = recipient

theorem not_mem_of_neutral (h : ∀ u ∈ text, IsNeutral u) :
    QUOTE ∉ text ∧ OPEN ∉ text ∧ LESS ∉ text :=
  ⟨fun hmem => (h _ hmem).not_quote rfl, fun hmem => (h _ hmem).not_open rfl,
    fun hmem => (h _ hmem).not_less rfl⟩

/-- A part without an at-sign is kept. -/
theorem partRecipients_of_name (h : ∀ u ∈ part, IsNeutral u) (hat : AT_SIGN ∉ part) :
    partRecipients part = [part] := by
  obtain ⟨hquote, hopen, hless⟩ := not_mem_of_neutral h
  have hnone : (tokens 0 part).filterMap Token.address = [] := by
    refine List.filterMap_eq_nil_iff.mpr fun token htoken => ?_
    obtain ⟨word, rfl, -, hunits⟩ := word_of_token hless htoken
    exact if_neg fun hmem => hat (hunits _ (mem_of_mem_bareWord hmem)).2
  rw [partRecipients, withoutNamesAndComments_eq hquote hopen, hnone]
  rfl

/-- A bare word with an at-sign is an address. -/
theorem partRecipients_of_word (h : ∀ u ∈ part, IsNeutral u) (hat : AT_SIGN ∈ part)
    (hword : ∀ u ∈ part, isWordUnit u = true) (hbare : bareWord part = part) :
    partRecipients part = [part] := by
  obtain ⟨hquote, hopen, -⟩ := not_mem_of_neutral h
  have haddress : (Token.word part).address = some part := by
    rw [Token.address, hbare]
    exact if_pos hat
  have hother : (Token.word part).otherWord = none := by
    rw [Token.otherWord, hbare]
    exact if_pos (.inl hat)
  rw [partRecipients, withoutNamesAndComments_eq hquote hopen,
    tokens_word (List.ne_nil_of_mem hat) hword, List.filterMap_cons_some haddress,
    List.filterMap_cons_none hother]
  simp

namespace IsPlain

theorem isClosed (h : IsPlain recipient) : IsClosed recipient := scanEnd_neutral h.units

/-- **A plain recipient stands for itself.** -/
theorem standsAlone (h : IsPlain recipient) : StandsAlone recipient := by
  have hneutral := fun u hu => (h.units u hu).1
  refine ⟨h.ne_nil, h.trimmed, h.isClosed.isUnsplit, ?_⟩
  by_cases hat : AT_SIGN ∈ recipient
  · obtain ⟨hword, hbare⟩ := h.word hat
    exact partRecipients_of_word hneutral hat hword hbare
  · exact partRecipients_of_name hneutral hat

end IsPlain

/-- **A text is read back** if each part of it is kept or gives plain recipients. -/
theorem parseRecipientText_parts {gap : Units} (hgap : IsGap gap) {text : Units}
    (h : ∀ part ∈ splitAddressList text,
      partRecipients part = [part] ∨ ∀ recipient ∈ partRecipients part, IsPlain recipient) :
    parseRecipientText (gap.intercalate (parseRecipientText text)) = parseRecipientText text := by
  obtain ⟨hclosed, hparts⟩ := splitAddressList_closed text
  refine parseRecipientText_join hgap ?_ fun recipient hrecipient => ?_
  · rw [parseRecipientText, List.pairwise_flatMap]
    constructor
    · intro part hpart
      rcases h part hpart with hkept | hplain
      · rw [hkept]
        exact List.pairwise_singleton _ _
      · exact List.pairwise_of_forall_mem_list fun recipient hrecipient _ _ =>
          (hplain recipient hrecipient).isClosed
    · refine hclosed.imp_of_mem fun {part next} hpart _ hpartClosed recipient hrecipient _ _ => ?_
      rcases h part hpart with hkept | hplain
      · rw [hkept, List.mem_singleton] at hrecipient
        exact hrecipient ▸ hpartClosed
      · exact (hplain recipient hrecipient).isClosed
  · obtain ⟨part, hpart, hmem⟩ := List.mem_flatMap.mp hrecipient
    rcases h part hpart with hkept | hplain
    · obtain ⟨hunsplit, hne, htrimmed⟩ := hparts part hpart
      rw [hkept, List.mem_singleton] at hmem
      exact hmem ▸ ⟨hne, htrimmed, hunsplit, hkept⟩
    · exact (hplain recipient hmem).standsAlone

/-! ### Valid addresses -/

/-- A character of a valid address. -/
def isAddressUnit (u : UInt16) : Bool := isLocalUnit u || u = AT_SIGN

theorem isAddressUnit_spec (h : isAddressUnit u = true) :
    isWordUnit u = true ∧ (IsNeutral u ∧ isSeparatorUnit u = false) ∧ u ≠ COLON := by
  have hrange : u.toNat < 128 := by
    simp only [isAddressUnit, isLocalUnit, isLastLocalUnit, isAlphanumericUnit, isLetterUnit,
      Bool.or_eq_true, Bool.and_eq_true, decide_eq_true_eq, ← UInt16.toNat_inj] at h
    have hvalues : (0x5F : UInt16).toNat = 95 ∧ (0x2B : UInt16).toNat = 43 ∧ HYPHEN.toNat = 45 ∧
      APOSTROPHE.toNat = 39 ∧ DOT.toNat = 46 ∧ AT_SIGN.toNat = 64 := by decide
    omega
  have hall : ∀ n < 128, isAddressUnit n.toUInt16 = true → isWordUnit n.toUInt16 = true ∧
      (n.toUInt16 ≠ QUOTE ∧ n.toUInt16 ≠ OPEN ∧ n.toUInt16 ≠ LESS) ∧
      isSeparatorUnit n.toUInt16 = false ∧ n.toUInt16 ≠ COLON := by decide
  have hsame : u.toNat.toUInt16 = u := UInt16.ofNat_toNat
  obtain ⟨hword, ⟨hquote, hopen, hless⟩, hseparator, hcolon⟩ :=
    hall u.toNat hrange (by rwa [hsame])
  rw [hsame] at hword hquote hopen hless hseparator hcolon
  exact ⟨hword, ⟨⟨hquote, hopen, hless⟩, hseparator⟩, hcolon⟩

theorem isQuoteUnit_letter (h : isLetterUnit u = true) : isQuoteUnit u = false := by
  refine Bool.eq_false_iff.mpr fun hquote => ?_
  rw [isQuoteUnit, Bool.or_eq_true, decide_eq_true_eq, decide_eq_true_eq] at hquote
  rcases hquote with rfl | rfl
  · exact absurd h (by decide)
  · exact absurd h (by decide)

theorem isAddressUnit_alphanumeric (h : isAlphanumericUnit u = true) : isAddressUnit u = true := by
  rw [isAddressUnit, isLocalUnit, isLastLocalUnit, h]
  rfl

theorem isAddressUnit_label {label : Units} (h : isDomainLabel label = true) :
    ∀ u ∈ label, isAddressUnit u = true := by
  rw [isDomainLabel, Bool.and_eq_true, List.all_eq_true] at h
  intro u hu
  rcases Bool.or_eq_true_iff.mp (h.2 u hu) with halphanumeric | hhyphen
  · exact isAddressUnit_alphanumeric halphanumeric
  · rw [of_decide_eq_true hhyphen]
    decide

/-- A domain ends in a letter. -/
theorem units_of_domain (h : isDomainPart part = true) :
    (∀ u ∈ part, isAddressUnit u = true) ∧
      ∃ u, part.getLast? = some u ∧ isLetterUnit u = true := by
  rw [isDomainPart, Bool.and_eq_true, Bool.and_eq_true, List.all_eq_true, Option.any_eq_true] at h
  obtain ⟨⟨-, hlabels⟩, top, hlast, htop⟩ := h
  obtain ⟨front, hsplit⟩ := List.getLast?_eq_some_iff.mp hlast
  rw [hsplit, List.dropLast_concat] at hlabels
  rw [isTopLevelLabel, Bool.and_eq_true, decide_eq_true_eq, List.all_eq_true] at htop
  have hne : top ≠ [] := List.ne_nil_of_length_pos (Nat.lt_of_lt_of_le Nat.two_pos htop.1)
  have hjoin : [DOT].intercalate (part.splitOn DOT) = part := List.intercalate_splitOn DOT
  rw [hsplit] at hjoin
  constructor
  · intro u hu
    rw [← hjoin] at hu
    rcases Separated.mem_intercalate hu with rfl | ⟨label, hlabel, hmem⟩
    · decide
    · rcases List.mem_append.mp hlabel with hfront | hlabel
      · exact isAddressUnit_label (hlabels label hfront) u hmem
      · rw [List.mem_singleton.mp hlabel] at hmem
        refine isAddressUnit_alphanumeric ?_
        rw [isAlphanumericUnit, htop.2 u hmem]
        rfl
  · refine ⟨top.getLast hne, ?_, htop.2 _ (List.getLast_mem hne)⟩
    rw [← hjoin, Separated.intercalate_append front (List.cons_ne_nil _ _),
      List.intercalate_singleton, List.getLast?_append_of_ne_nil _ hne,
      List.getLast?_eq_some_getLast hne]

/-- **A valid address** is one word that ends in a letter. -/
theorem units_of_valid (h : isValidRecipientAddress address = true) :
    AT_SIGN ∈ address ∧ (∀ u ∈ address, isAddressUnit u = true) ∧
      ∃ u, address.getLast? = some u ∧ isLetterUnit u = true := by
  rw [isValidRecipientAddress, Bool.and_eq_true] at h
  obtain ⟨-, h⟩ := h
  split at h
  · rename_i localPart domain hsplit
    obtain ⟨hlocal, hdomain⟩ := Bool.and_eq_true_iff.mp h
    rw [isLocalPart, Bool.and_eq_true, Bool.and_eq_true, List.all_eq_true] at hlocal
    obtain ⟨hunits, u, hlast, hletter⟩ := units_of_domain hdomain
    have hjoin : [AT_SIGN].intercalate (address.splitOn AT_SIGN) = address :=
      List.intercalate_splitOn AT_SIGN
    have haddress : localPart ++ AT_SIGN :: domain = address := by
      rw [← hjoin, hsplit, List.intercalate_cons_cons, List.intercalate_singleton,
        List.append_assoc]
      rfl
    have hne : domain ≠ [] := by
      rintro rfl
      cases hlast
    rw [← haddress]
    refine ⟨List.mem_append_right _ List.mem_cons_self, fun v hv => ?_, u, ?_, hletter⟩
    · rcases List.mem_append.mp hv with hv | hv
      · rw [isAddressUnit, hlocal.1.2 v hv]
        rfl
      · rcases List.mem_cons.mp hv with rfl | hv
        · decide
        · exact hunits v hv
    · rw [List.getLast?_append_of_ne_nil _ (List.cons_ne_nil _ _), List.getLast?_cons_of_ne_nil hne,
        hlast]
  · cases h

/-- **A valid address is plain**, unless it begins with an apostrophe. -/
theorem isPlain_of_valid (h : isValidRecipientAddress address = true)
    (hfirst : address.head? ≠ some APOSTROPHE) : IsPlain address := by
  obtain ⟨hat, hunits, last, hlast, hletter⟩ := units_of_valid h
  have hspec := fun u hu => isAddressUnit_spec (hunits u hu)
  have hword : ∀ u ∈ address, isWordUnit u = true := fun u hu => (hspec u hu).1
  refine ⟨List.ne_nil_of_mem hat, trim_of_word hword, fun u hu => (hspec u hu).2.1,
    fun _ => ⟨hword, bareWord_eq hword (fun hcolon => (hspec _ hcolon).2.2 rfl) ?_ ?_⟩⟩
  · intro u hu
    have hne : u ≠ APOSTROPHE := fun heq => hfirst (heq ▸ hu)
    have hquote := (hspec u (List.mem_of_head? hu)).2.1.1.not_quote
    rw [isQuoteUnit, decide_eq_false hquote, decide_eq_false hne]
    rfl
  · intro u hu
    rw [hlast] at hu
    exact Option.some.inj hu ▸ isQuoteUnit_letter hletter

/-! ### Plain texts -/

/-- A text without quotes, apostrophes, parentheses, brackets and colons. -/
def IsPlainText (text : Units) : Prop := ∀ u ∈ text, IsNeutral u ∧ u ≠ APOSTROPHE ∧ u ≠ COLON

instance (text : Units) : Decidable (IsPlainText text) :=
  List.decidableBAll (fun u => IsNeutral u ∧ u ≠ APOSTROPHE ∧ u ≠ COLON) text

theorem mem_of_mem_splitFrom {skip : Bool} {s : ScanState} {piece : Units}
    (hpiece : piece ∈ splitFrom skip s text) (hu : u ∈ piece) : u ∈ text := by
  induction text generalizing skip s piece with
  | nil =>
    have hnothing : splitFrom skip s [] = [[]] := by cases skip <;> rfl
    rw [hnothing, List.mem_singleton] at hpiece
    rw [hpiece] at hu
    exact hu
  | cons v text ih =>
    -- the first piece may have one more character
    have hcons : ∀ {skip s}, piece ∈ (splitFrom skip s text).modifyHead (v :: ·) →
        u ∈ v :: text := by
      intro skip s hmem
      obtain ⟨first, others, state, hsplit, -⟩ := splitFrom_closed skip s text
      rw [hsplit, List.modifyHead_cons] at hmem
      rcases List.mem_cons.mp hmem with rfl | hmem
      · rcases List.mem_cons.mp hu with rfl | hu
        · exact List.mem_cons_self
        · exact List.mem_cons_of_mem v (ih (hsplit ▸ List.mem_cons_self) hu)
      · exact List.mem_cons_of_mem v (ih (hsplit ▸ List.mem_cons_of_mem first hmem) hu)
    cases skip with
    | true => exact hcons hpiece
    | false =>
      rw [splitFrom] at hpiece
      dsimp only at hpiece
      split at hpiece
      · rcases List.mem_cons.mp hpiece with rfl | hpiece
        · cases hu
        · exact List.mem_cons_of_mem v (ih hpiece hu)
      · exact hcons hpiece

theorem mem_of_mem_splitAddressList (hpart : part ∈ splitAddressList text) (hu : u ∈ part) :
    u ∈ text := by
  rw [splitAddressList_eq] at hpart
  obtain ⟨piece, hpiece, rfl⟩ := List.mem_map.mp (List.mem_filter.mp hpart).1
  exact mem_of_mem_splitFrom hpiece (Words.mem_of_mem_trimBoth hu)

/-- There is no separator in a part of a plain text. -/
theorem not_separator_of_unsplit (hneutral : ∀ u ∈ part, IsNeutral u) (h : IsUnsplit part) :
    ∀ u ∈ part, isSeparatorUnit u = false := by
  induction part with
  | nil => exact nofun
  | cons v part ih =>
    obtain ⟨state, hstate⟩ := h
    rw [scanEnd, scanUnit_neutral (hneutral v List.mem_cons_self)] at hstate
    dsimp only at hstate
    split at hstate
    · cases hstate
    · rename_i hv
      exact List.forall_mem_cons.mpr ⟨Bool.eq_false_iff.mpr hv,
        ih (fun u hu => hneutral u (List.mem_cons_of_mem v hu)) ⟨state, hstate⟩⟩

/-- A word of a plain text. -/
structure IsPlainWord (word : Units) : Prop where
  ne_nil : word ≠ []
  units : ∀ u ∈ word, isWordUnit u = true ∧ (IsNeutral u ∧ isSeparatorUnit u = false) ∧
    u ≠ APOSTROPHE ∧ u ≠ COLON

namespace IsPlainWord

variable {word : Units} {words : List Units}

theorem bareWord (h : IsPlainWord word) : bareWord word = word := by
  have hquote : ∀ u ∈ word, isQuoteUnit u = false := by
    intro u hu
    obtain ⟨-, ⟨hneutral, -⟩, happostrophe, -⟩ := h.units u hu
    rw [isQuoteUnit, decide_eq_false hneutral.not_quote, decide_eq_false happostrophe]
    rfl
  exact bareWord_eq (fun u hu => (h.units u hu).1) (fun hcolon => (h.units _ hcolon).2.2.2 rfl)
    (fun u hu => hquote u (List.mem_of_head? hu)) fun u hu => hquote u (List.mem_of_getLast? hu)

theorem isPlain (h : IsPlainWord word) : IsPlain word :=
  ⟨h.ne_nil, trim_of_word fun u hu => (h.units u hu).1, fun u hu => (h.units u hu).2.1,
    fun _ => ⟨fun u hu => (h.units u hu).1, h.bareWord⟩⟩

/-- Words without an at-sign, with spaces between them. -/
theorem isPlain_join (hne : words ≠ []) (h : ∀ word ∈ words, IsPlainWord word)
    (hat : ∀ word ∈ words, AT_SIGN ∉ word) : IsPlain ([SPACE].intercalate words) := by
  have hhead : ∃ u rest, [SPACE].intercalate words = u :: rest ∧ isSpaceUnit u = false := by
    obtain ⟨first, others, rfl⟩ := List.exists_cons_of_ne_nil hne
    have hfirst := h first List.mem_cons_self
    obtain ⟨u, rest, rfl⟩ := List.exists_cons_of_ne_nil hfirst.ne_nil
    exact ⟨u, _, List.intercalate_cons_cons_left,
      isSpaceUnit_word (hfirst.units u List.mem_cons_self).1⟩
  have hlast : ∃ u, ([SPACE].intercalate words).getLast? = some u ∧ isSpaceUnit u = false := by
    obtain ⟨front, final, rfl⟩ : ∃ front final, words = front ++ [final] :=
      ⟨_, _, (List.dropLast_concat_getLast hne).symm⟩
    have hfinal := h final (List.mem_append_right _ List.mem_cons_self)
    refine ⟨final.getLast hfinal.ne_nil, ?_,
      isSpaceUnit_word (hfinal.units _ (List.getLast_mem hfinal.ne_nil)).1⟩
    rw [Separated.intercalate_append _ (List.cons_ne_nil _ _), List.intercalate_singleton,
      List.getLast?_append_of_ne_nil _ hfinal.ne_nil, List.getLast?_eq_some_getLast hfinal.ne_nil]
  have hunits : ∀ u ∈ [SPACE].intercalate words, u = SPACE ∨ ∃ word ∈ words, u ∈ word :=
    fun u hu => Separated.mem_intercalate hu
  obtain ⟨u, rest, hfirst, hu⟩ := hhead
  obtain ⟨v, hend, hv⟩ := hlast
  refine ⟨?_, ?_, fun w hw => ?_, fun hmem => ?_⟩
  · rw [hfirst]
    exact List.cons_ne_nil u rest
  · refine Words.trimBoth_of_ends (fun w hw => ?_) fun w hw => ?_
    · rw [hfirst] at hw
      exact Option.some.inj hw ▸ hu
    · rw [hend] at hw
      exact Option.some.inj hw ▸ hv
  · rcases hunits w hw with rfl | ⟨word, hword, hmem⟩
    · exact ⟨⟨by decide, by decide, by decide⟩, by decide⟩
    · exact ((h word hword).units w hmem).2.1
  · rcases hunits _ hmem with hspace | ⟨word, hword, hmem⟩
    · exact absurd hspace (by decide)
    · exact absurd hmem (hat word hword)

end IsPlainWord

section

variable (h : ∀ u ∈ part, (IsNeutral u ∧ isSeparatorUnit u = false) ∧ u ≠ APOSTROPHE ∧ u ≠ COLON)
include h

theorem isPlainWord_of_token (htoken : token ∈ tokens 0 part) :
    ∃ word, token = .word word ∧ IsPlainWord word := by
  have hless := (not_mem_of_neutral fun u hu => (h u hu).1.1).2.2
  obtain ⟨word, hword, hne, hunits⟩ := word_of_token hless htoken
  exact ⟨word, hword, hne, fun u hu => ⟨(hunits u hu).1, h u (hunits u hu).2⟩⟩

/-- What is read in a part of a plain text. -/
theorem partRecipients_plain :
    partRecipients part = [part] ∨ ∀ recipient ∈ partRecipients part, IsPlain recipient := by
  obtain ⟨hquote, hopen, hless⟩ := not_mem_of_neutral fun u hu => (h u hu).1.1
  have haddress : ∀ address ∈ (tokens 0 part).filterMap Token.address, IsPlain address := by
    intro address hmem
    obtain ⟨token, htoken, hsome⟩ := List.mem_filterMap.mp hmem
    obtain ⟨word, rfl, hword⟩ := isPlainWord_of_token h htoken
    rw [Token.address, hword.bareWord] at hsome
    split at hsome
    · exact Option.some.inj hsome ▸ hword.isPlain
    · cases hsome
  have hother : ∀ word ∈ (tokens 0 part).filterMap Token.otherWord,
      IsPlainWord word ∧ AT_SIGN ∉ word := by
    intro word hmem
    obtain ⟨token, htoken, hsome⟩ := List.mem_filterMap.mp hmem
    obtain ⟨found, rfl, hfound⟩ := isPlainWord_of_token h htoken
    rw [Token.otherWord, hfound.bareWord] at hsome
    split at hsome
    · cases hsome
    · rename_i hnot
      cases hsome
      exact ⟨hfound, fun hat => hnot (.inl hat)⟩
  rw [partRecipients, withoutNamesAndComments_eq hquote hopen]
  split
  · exact .inl rfl
  · split
    · exact .inr haddress
    · rename_i hnames
      have hne : (tokens 0 part).filterMap Token.otherWord ≠ [] := by
        intro hnil
        rw [hnil] at hnames
        exact hnames (Bool.or_true _)
      exact .inr (List.forall_mem_cons.mpr ⟨IsPlainWord.isPlain_join hne
        (fun word hword => (hother word hword).1) fun word hword => (hother word hword).2,
        haddress⟩)

end

/-- **In a plain text** each part is kept or gives plain recipients. -/
theorem parts_of_plain_text (h : IsPlainText text) (hpart : part ∈ splitAddressList text) :
    partRecipients part = [part] ∨ ∀ recipient ∈ partRecipients part, IsPlain recipient := by
  have hunits := fun u hu => h u (mem_of_mem_splitAddressList hpart hu)
  have hseparator := not_separator_of_unsplit (fun u hu => (hunits u hu).1)
    ((splitAddressList_closed text).2 part hpart).1
  exact partRecipients_plain fun u hu => ⟨⟨(hunits u hu).1, hseparator u hu⟩, (hunits u hu).2⟩

end MailPortal.Recipients
