import MailPortal.Attachments.BoundedNames

/-!
# Names That Stay

A stored filename is given to the same function again when its key is looked for. It is the same
name then if it has an extension. The slice before an extension that is not there leaves the last
unit of the name out, and all of a name that begins with its only dot.

Main results:

* `bounded_attachment_storage_filename` : the filename in a derived key.
* `stored_names_fixed` : the storage filenames that stay.
-/

namespace MailPortal.Attachments

open Utf16

variable {u : UInt16}

/-! ### Stored filenames -/

/-- The name that is bounded. -/
def cleaned (value : Units) : Units :=
  replaceUnits isForbidden (if value = [] then untitled else value)

/-- What a name is stored under, within the bytes that the prefix leaves. -/
def storedName (name : Units) (availableBytes : ℕ) : Units :=
  let bounded := boundedFilename name ATTACHMENT_PRESENTATION_FILENAME_CHARACTERS availableBytes
  if bounded ≠ [] then bounded else takeBoundedCharacters untitled 8 availableBytes

theorem characters_untitled : (characters untitled).length = 8 ∧ utf8Bytes untitled = 8 := by
  decide

theorem take_untitled (availableBytes : ℕ) :
    takeBoundedCharacters untitled 8 availableBytes = untitled.take availableBytes := by
  rcases Nat.lt_or_ge availableBytes 8 with hlt | hge
  · have hall : ∀ n < 8, takeBoundedCharacters untitled 8 n = untitled.take n := by decide
    exact hall availableBytes hlt
  · rw [takeBounded_self characters_untitled.1.le (characters_untitled.2.le.trans hge),
      List.take_of_length_le]
    exact le_trans (by decide) hge

theorem safeAttachmentStorageFilename_eq {value keyPrefix : Units}
    (h : utf8Bytes keyPrefix < R2_OBJECT_KEY_MAX_BYTES) :
    safeAttachmentStorageFilename value keyPrefix =
      .ok (storedName (cleaned value) (R2_OBJECT_KEY_MAX_BYTES - utf8Bytes keyPrefix)) := by
  have hint : ((R2_OBJECT_KEY_MAX_BYTES : ℤ) - utf8Bytes keyPrefix).toNat =
      R2_OBJECT_KEY_MAX_BYTES - utf8Bytes keyPrefix := by omega
  have hne : untitled.take (R2_OBJECT_KEY_MAX_BYTES - utf8Bytes keyPrefix) ≠ [] := by
    intro hnil
    rw [List.take_eq_nil_iff] at hnil
    rcases hnil with hzero | hempty
    · omega
    · exact absurd hempty (by decide)
  unfold safeAttachmentStorageFilename
  rw [if_neg (by omega), hint, take_untitled, storedName, take_untitled]
  simp only [hne, ne_eq, not_false_eq_true, if_true]
  exact (apply_ite Except.ok _ _ _).symm

theorem some_characters : 0 < ATTACHMENT_PRESENTATION_FILENAME_CHARACTERS := by decide

section Stored

variable {name : Units} {availableBytes : ℕ}

theorem storedName_of_ne (h : boundedFilename name ATTACHMENT_PRESENTATION_FILENAME_CHARACTERS
    availableBytes ≠ []) : storedName name availableBytes =
      boundedFilename name ATTACHMENT_PRESENTATION_FILENAME_CHARACTERS availableBytes := if_pos h

theorem storedName_of_nil (h : boundedFilename name ATTACHMENT_PRESENTATION_FILENAME_CHARACTERS
    availableBytes = []) : storedName name availableBytes = untitled.take availableBytes := by
  rw [storedName, if_neg (not_not.mpr h), take_untitled]

theorem untitled_take_ne (hpos : 0 < availableBytes) : ∃ rest,
    untitled.take availableBytes = 0x75 :: rest := by
  obtain ⟨n, rfl⟩ := Nat.exists_eq_succ_of_ne_zero hpos.ne'
  exact ⟨_, rfl⟩

/-- **A stored filename** is not empty and keeps both budgets, and its units are those of the name
or of `untitled`. -/
theorem storedName_bounds (name : Units) (hpos : 0 < availableBytes) :
    storedName name availableBytes ≠ [] ∧
      (characters (storedName name availableBytes)).length ≤
        ATTACHMENT_PRESENTATION_FILENAME_CHARACTERS ∧
      utf8Bytes (storedName name availableBytes) ≤ availableBytes ∧
      ∀ u ∈ storedName name availableBytes, u ∈ name ∨ u ∈ untitled := by
  by_cases hnil : boundedFilename name ATTACHMENT_PRESENTATION_FILENAME_CHARACTERS
      availableBytes = []
  · have hstored := storedName_of_nil hnil
    obtain ⟨rest, hrest⟩ := untitled_take_ne hpos
    refine ⟨by rw [hstored, hrest]; exact List.cons_ne_nil _ _, ?_, ?_, fun u hu => Or.inr ?_⟩
    · rw [hstored, ← take_untitled]
      exact (takeBounded_length _ _ _).trans (by decide)
    · rw [hstored, ← take_untitled]
      exact takeBounded_bytes _ _ _
    · rw [hstored] at hu
      exact List.mem_of_mem_take hu
  · rw [storedName_of_ne hnil]
    obtain ⟨hcharacters, hbytes, hmem⟩ := boundedFilename_bounds name some_characters hpos
    exact ⟨hnil, hcharacters, hbytes, fun u hu => Or.inl (hmem u hu)⟩

theorem dotUnit_not_mem_untitled : dotUnit ∉ untitled := by decide

/-- Nothing is taken of what is not empty just if its first character does not fit. -/
theorem first_fits (hne : name ≠ []) (hbytes : utf8Bytes name ≤ availableBytes)
    (h : takeBoundedCharacters name.dropLast ATTACHMENT_PRESENTATION_FILENAME_CHARACTERS
      availableBytes = []) : name.length = 1 := by
  obtain ⟨u, us, rfl⟩ := List.exists_cons_of_ne_nil hne
  cases us with
  | nil => rfl
  | cons v rest =>
    obtain ⟨c, cs, hcs⟩ :=
      List.exists_cons_of_ne_nil (characters_ne_nil (s := (u :: v :: rest).dropLast)
      (List.cons_ne_nil _ _))
    have hlong := (takeBounded_eq_nil hcs some_characters availableBytes).mp h
    have hle := utf8Bytes_dropLast_le (u :: v :: rest)
    rw [utf8Bytes, hcs, List.map_cons, List.sum_cons] at hle
    omega

theorem length_takeBounded_le (value : Units) (maximumCharacters maximumBytes : ℕ) :
    (takeBoundedCharacters value maximumCharacters maximumBytes).length ≤ value.length := by
  obtain ⟨back, hback⟩ := takeBounded_append value maximumCharacters maximumBytes
  have hlength := congrArg List.length hback
  rw [List.length_append] at hlength
  omega

theorem untitled_take_eq (hpos : 0 < availableBytes) :
    untitled.take availableBytes = [u] ↔ availableBytes = 1 ∧ u = 0x75 := by
  constructor
  · intro h
    have hlength := congrArg List.length h
    have height : untitled.length = 8 := by decide
    rw [List.length_take, height, List.length_singleton] at hlength
    obtain rfl : availableBytes = 1 := by omega
    exact ⟨rfl, (List.cons.inj h).1.symm⟩
  · rintro ⟨rfl, rfl⟩
    rfl

/-- **A name that keeps both budgets** stays if it has an extension; the one other name that stays
is `u`, when one byte is left. -/
theorem storedName_self_iff (hne : name ≠ []) (hpos : 0 < availableBytes)
    (hcharacters : (characters name).length ≤ ATTACHMENT_PRESENTATION_FILENAME_CHARACTERS)
    (hbytes : utf8Bytes name ≤ availableBytes) :
    storedName name availableBytes = name ↔
      (∃ stem extension, HasExtension name stem extension) ∨
      (availableBytes = 1 ∧ name = [0x75]) := by
  rcases name_cases name with hno | hfirst | ⟨stem, extension, h⟩
  · have hbounded := boundedFilename_no_dot hno some_characters hpos
    rw [or_iff_right (not_hasExtension_of_not_mem hno)]
    by_cases hnil : takeBoundedCharacters name.dropLast ATTACHMENT_PRESENTATION_FILENAME_CHARACTERS
        availableBytes = []
    · rw [storedName_of_nil (hbounded.trans hnil)]
      obtain ⟨u, rfl⟩ := List.length_eq_one_iff.mp (first_fits hne hbytes hnil)
      rw [untitled_take_eq hpos]
      exact and_congr_right fun _ => ⟨fun hu => by rw [hu], fun hu => (List.cons.inj hu).1⟩
    · have hstored := storedName_of_ne (hbounded ▸ hnil)
      have hshorter := length_takeBounded_le name.dropLast
        ATTACHMENT_PRESENTATION_FILENAME_CHARACTERS availableBytes
      rw [List.length_dropLast] at hshorter
      have hlength := List.length_pos_iff.mpr hne
      rw [hstored, hbounded]
      constructor
      · intro heq
        rw [heq] at hshorter
        omega
      · rintro ⟨-, rfl⟩
        exact absurd rfl hnil
  · have hbounded := boundedFilename_first hfirst some_characters hpos
    rw [or_iff_right (not_extension_of_first hfirst), storedName_of_nil hbounded]
    obtain ⟨after, rfl, -⟩ := hfirst
    constructor
    · intro heq
      exact absurd (List.mem_of_mem_take (heq ▸ List.mem_cons_self)) dotUnit_not_mem_untitled
    · rintro ⟨-, heq⟩
      exact absurd (List.cons.inj heq).1 (by decide)
  · have hself := boundedFilename_self h hcharacters hbytes
    rw [storedName_of_ne (by rwa [hself]), hself]
    exact ⟨fun _ => Or.inl ⟨stem, extension, h⟩, fun _ => rfl⟩

/-! ### Names that stay -/

/-- An extension that is kept, beside at least the first character of the stem. -/
def KeptBeside (name : Units) (availableBytes : ℕ) : Prop :=
  ∃ stem extension, HasExtension name stem extension ∧
    Kept extension ATTACHMENT_PRESENTATION_FILENAME_CHARACTERS availableBytes ∧
    ∃ c ∈ (characters stem).head?, characterBytes c + utf8Bytes extension ≤ availableBytes

/-- An extension that is not kept, in a name with a dot, not the first unit, within both budgets. -/
def CutBehindDot (name : Units) (availableBytes : ℕ) : Prop :=
  ∃ stem extension, HasExtension name stem extension ∧
    ¬Kept extension ATTACHMENT_PRESENTATION_FILENAME_CHARACTERS availableBytes ∧
    ∃ front rest, name = front ++ dotUnit :: rest ∧ front ≠ [] ∧
      (characters (front ++ [dotUnit])).length ≤ ATTACHMENT_PRESENTATION_FILENAME_CHARACTERS ∧
      utf8Bytes (front ++ [dotUnit]) ≤ availableBytes

/-- One byte is left, and nothing is taken into it or `u`. -/
def OneByte (name : Units) (availableBytes : ℕ) : Prop :=
  availableBytes = 1 ∧
    (OnlyFirst name ∨ name.length = 1 ∨ ∃ u ∈ name.head?, u = 0x75 ∨ ¬u < 0x80)

theorem characters_dot (front : Units) (rest : Units) :
    characters (front ++ dotUnit :: rest) = characters (front ++ [dotUnit]) ++ characters rest := by
  have hdot : ∀ rest : Units, characters (front ++ dotUnit :: rest) =
      characters front ++ [dotUnit] :: characters rest := by
    intro rest
    rw [characters_append front fun v hv => by obtain rfl := Option.some.inj hv; rfl,
      characters_cons (Or.inl rfl)]
  rw [hdot, hdot, List.append_assoc]
  rfl

theorem untitled_no_extension :
    ¬∃ stem extension, HasExtension (untitled.take availableBytes) stem extension :=
  not_hasExtension_of_not_mem fun h => dotUnit_not_mem_untitled (List.mem_of_mem_take h)

/-- When a name that was cut still has an extension. -/
theorem cut_extension_iff : (∃ stem extension, HasExtension (takeBoundedCharacters name
      ATTACHMENT_PRESENTATION_FILENAME_CHARACTERS availableBytes) stem extension) ↔
    ∃ front rest, name = front ++ dotUnit :: rest ∧ front ≠ [] ∧
      (characters (front ++ [dotUnit])).length ≤ ATTACHMENT_PRESENTATION_FILENAME_CHARACTERS ∧
      utf8Bytes (front ++ [dotUnit]) ≤ availableBytes := by
  constructor
  · rintro ⟨front, extension, h⟩
    obtain ⟨after, rfl, -⟩ := h.dot
    obtain ⟨back, hback⟩ :=
      takeBounded_append name ATTACHMENT_PRESENTATION_FILENAME_CHARACTERS availableBytes
    have hlength :=
      takeBounded_length name ATTACHMENT_PRESENTATION_FILENAME_CHARACTERS availableBytes
    have hbytes :=
      takeBounded_bytes name ATTACHMENT_PRESENTATION_FILENAME_CHARACTERS availableBytes
    rw [h.split, characters_dot, List.length_append] at hlength
    rw [h.split, utf8Bytes, characters_dot, List.map_append, List.sum_append] at hbytes
    refine ⟨front, after ++ back, ?_, h.stem_ne, (Nat.le_add_right _ _).trans hlength,
      (Nat.le_add_right _ _).trans hbytes⟩
    rw [h.split, List.append_assoc] at hback
    exact hback
  · rintro ⟨front, rest, hname, hfront, hlength, hbytes⟩
    obtain ⟨more, hmore⟩ := takeBounded_keeps (hname ▸ characters_dot front rest) hlength hbytes
    rw [hmore]
    exact exists_extension (by rw [List.append_assoc]; rfl) hfront

/-- When a stored name has an extension. -/
theorem storedName_extension_iff (hpos : 0 < availableBytes) :
    (∃ stem extension, HasExtension (storedName name availableBytes) stem extension) ↔
      KeptBeside name availableBytes ∨ CutBehindDot name availableBytes := by
  rcases name_cases name with hno | hfirst | ⟨stem, extension, h⟩
  · have hnone := not_hasExtension_of_not_mem hno
    refine ⟨fun hext => absurd hext ?_, ?_⟩
    · refine not_hasExtension_of_not_mem fun hmem => ?_
      rcases (storedName_bounds name hpos).2.2.2 dotUnit hmem with hmem | hmem
      · exact hno hmem
      · exact dotUnit_not_mem_untitled hmem
    · rintro (⟨stem, extension, h, -⟩ | ⟨stem, extension, h, -⟩) <;> exact absurd ⟨_, _, h⟩ hnone
  · have hnone := not_extension_of_first hfirst
    rw [storedName_of_nil (boundedFilename_first hfirst some_characters hpos)]
    refine ⟨fun hext => absurd hext untitled_no_extension, ?_⟩
    rintro (⟨stem, extension, h, -⟩ | ⟨stem, extension, h, -⟩) <;> exact absurd ⟨_, _, h⟩ hnone
  · by_cases hkept : Kept extension ATTACHMENT_PRESENTATION_FILENAME_CHARACTERS availableBytes
    · have hbounded := boundedFilename_kept h hkept
      have hne : boundedFilename name ATTACHMENT_PRESENTATION_FILENAME_CHARACTERS availableBytes ≠
          [] := by
        rw [hbounded]
        exact List.append_ne_nil_of_right_ne_nil _ h.extension_ne
      rw [storedName_of_ne hne, hbounded]
      obtain ⟨after, hafter, hlast⟩ := h.dot
      obtain ⟨c, cs, hcs⟩ := List.exists_cons_of_ne_nil (characters_ne_nil h.stem_ne)
      have hempty := takeBounded_eq_nil hcs (Nat.sub_pos_of_lt hkept.2.1)
        (availableBytes - utf8Bytes extension)
      constructor
      · rintro ⟨stem', extension', h'⟩
        refine Or.inl ⟨stem, extension, h, hkept, c, by rw [hcs]; rfl, ?_⟩
        by_contra hlong
        have hnil := hempty.mpr (by have := hkept.2.2; omega)
        rw [hnil, List.nil_append] at h'
        exact not_extension_of_first ⟨after, hafter, hlast⟩ ⟨_, _, h'⟩
      · rintro (⟨stem', extension', h', -, c', hc', hfits⟩ | ⟨stem', extension', h', hnot, -⟩)
        · obtain ⟨rfl, rfl⟩ := h.unique h'
          rw [hcs] at hc'
          cases hc'
          refine ⟨_, extension, rfl, fun hnil => ?_, after, hafter, hlast⟩
          have hlong := hempty.mp hnil
          omega
        · obtain ⟨rfl, rfl⟩ := h.unique h'
          exact absurd hkept hnot
    · have hbounded := boundedFilename_cut h hkept
      have hstored : (∃ stem extension, HasExtension (storedName name availableBytes) stem
          extension) ↔ ∃ stem extension, HasExtension (takeBoundedCharacters name
            ATTACHMENT_PRESENTATION_FILENAME_CHARACTERS availableBytes) stem extension := by
        by_cases hnil : takeBoundedCharacters name ATTACHMENT_PRESENTATION_FILENAME_CHARACTERS
            availableBytes = []
        · rw [storedName_of_nil (hbounded.trans hnil), hnil]
          exact iff_of_false untitled_no_extension
            (not_hasExtension_of_not_mem List.not_mem_nil)
        · rw [storedName_of_ne (hbounded ▸ hnil), hbounded]
      rw [hstored, cut_extension_iff]
      constructor
      · exact fun hcut => Or.inr ⟨stem, extension, h, hkept, hcut⟩
      · rintro (⟨stem', extension', h', hyes, -⟩ | ⟨-, -, -, -, hcut⟩)
        · obtain ⟨rfl, rfl⟩ := h.unique h'
          exact absurd hyes hkept
        · exact hcut

/-- What is taken into one byte. -/
theorem takeBounded_one (u : UInt16) (us : Units) :
    takeBoundedCharacters (u :: us) ATTACHMENT_PRESENTATION_FILENAME_CHARACTERS 1 =
      if u < 0x80 then [u] else [] := by
  have hrest : ∀ cs : List Units,
      takeCharacters ATTACHMENT_PRESENTATION_FILENAME_CHARACTERS 1 cs 1 1 = [] := by
    intro cs
    cases cs with
    | nil => rfl
    | cons c cs =>
      have hpos := characterBytes_pos c
      rw [takeCharacters, if_neg (by decide), if_pos (by omega)]
  by_cases hpair : ∃ v rest, us = v :: rest ∧ isHigh u = true ∧ isLow v = true
  · obtain ⟨v, rest, rfl, hhigh, hlow⟩ := hpair
    have hlarge : ¬u < 0x80 := fun hlt => by
      have hthree := characterBytes_surrogate (Or.inl hhigh)
      rw [characterBytes, if_pos hlt] at hthree
      exact absurd hthree (by decide)
    have hfour : characterBytes [u, v] = 4 := rfl
    rw [takeBoundedCharacters, characters, if_pos ⟨hhigh, hlow⟩, takeCharacters,
      if_neg (by decide), hfour, if_pos (by decide), if_neg hlarge]
    rfl
  · have hcons : characters (u :: us) = [u] :: characters us := by
      cases us with
      | nil => rfl
      | cons v rest => rw [characters, if_neg fun h => hpair ⟨v, rest, rfl, h⟩]
    rw [takeBoundedCharacters, hcons, takeCharacters, if_neg (by decide), characterBytes]
    by_cases hsmall : u < 0x80
    · rw [if_pos hsmall, if_neg (by decide), hrest, if_pos hsmall]
      rfl
    · rw [if_neg hsmall, if_neg hsmall]
      split <;> rfl

theorem storedName_one_iff (hne : name ≠ []) :
    storedName name 1 = [0x75] ↔
      OnlyFirst name ∨ name.length = 1 ∨ ∃ u ∈ name.head?, u = 0x75 ∨ ¬u < 0x80 := by
  have hfallback : untitled.take 1 = [0x75] := rfl
  -- What is taken of a name that begins with `u` is `u` itself or nothing.
  have htaken : ∀ {u : UInt16} {us : Units}, boundedFilename name
      ATTACHMENT_PRESENTATION_FILENAME_CHARACTERS 1 =
        takeBoundedCharacters (u :: us) ATTACHMENT_PRESENTATION_FILENAME_CHARACTERS 1 →
      (storedName name 1 = [0x75] ↔ u = 0x75 ∨ ¬u < 0x80) := by
    intro u us hbounded
    rw [takeBounded_one] at hbounded
    by_cases hsmall : u < 0x80
    · rw [if_pos hsmall] at hbounded
      rw [storedName_of_ne (by rw [hbounded]; exact List.cons_ne_nil _ _), hbounded,
        or_iff_left (not_not.mpr hsmall)]
      exact ⟨fun h => (List.cons.inj h).1, fun h => by rw [h]⟩
    · rw [if_neg hsmall] at hbounded
      rw [storedName_of_nil hbounded]
      exact iff_of_true hfallback (Or.inr hsmall)
  obtain ⟨u, us, rfl⟩ := List.exists_cons_of_ne_nil hne
  have hhead : (∃ v ∈ (u :: us).head?, v = 0x75 ∨ ¬v < 0x80) ↔ u = 0x75 ∨ ¬u < 0x80 :=
    ⟨fun ⟨v, hv, h⟩ => by obtain rfl := Option.some.inj hv; exact h, fun h => ⟨u, rfl, h⟩⟩
  rw [hhead]
  rcases name_cases (u :: us) with hno | hfirst | ⟨stem, extension, h⟩
  · have hbounded := boundedFilename_no_dot hno some_characters Nat.one_pos
    have hnotFirst : ¬OnlyFirst (u :: us) := by
      rintro ⟨after, heq, -⟩
      exact hno (heq ▸ List.mem_cons_self)
    rw [or_iff_right hnotFirst]
    cases us with
    | nil =>
      rw [storedName_of_nil hbounded]
      exact iff_of_true hfallback (Or.inl rfl)
    | cons v rest =>
      rw [or_iff_right (by simp)]
      exact htaken hbounded
  · rw [storedName_of_nil (boundedFilename_first hfirst some_characters Nat.one_pos)]
    exact iff_of_true hfallback (Or.inl hfirst)
  · have hbytes := utf8Bytes_pos h.extension_ne
    have hkept : ¬Kept extension ATTACHMENT_PRESENTATION_FILENAME_CHARACTERS 1 :=
      fun hkept => absurd hkept.2.2 (by omega)
    have hlength : (u :: us).length ≠ 1 := by
      have hstem := List.length_pos_iff.mpr h.stem_ne
      have hextension := List.length_pos_iff.mpr h.extension_ne
      rw [h.split, List.length_append]
      omega
    rw [or_iff_right fun hfirst => not_extension_of_first hfirst ⟨stem, extension, h⟩,
      or_iff_right hlength]
    exact htaken (boundedFilename_cut h hkept)

/-- **A stored name stays** just if it has an extension that was kept, or a dot that was; or if it
is `u`. -/
theorem storedName_stays_iff (hne : name ≠ []) (hpos : 0 < availableBytes) :
    storedName (storedName name availableBytes) availableBytes = storedName name availableBytes ↔
      KeptBeside name availableBytes ∨ CutBehindDot name availableBytes ∨
        OneByte name availableBytes := by
  obtain ⟨hstored, hcharacters, hbytes, -⟩ := storedName_bounds name hpos
  rw [storedName_self_iff hstored hpos hcharacters hbytes, storedName_extension_iff hpos, or_assoc]
  refine or_congr_right (or_congr_right ⟨?_, ?_⟩)
  · rintro ⟨rfl, heq⟩
    exact ⟨rfl, (storedName_one_iff hne).mp heq⟩
  · rintro ⟨rfl, h⟩
    exact ⟨rfl, (storedName_one_iff hne).mpr h⟩

/-! ### What a stored filename is -/

/-- A name of whole characters from the front and from the end of another, or from `untitled`. -/
def WholeCharacters (source name : Units) : Prop :=
  (∃ front back, characters name = front ++ back ∧ front <+: characters source ∧
    back <:+ characters source) ∨ characters name <+: characters untitled

/-- What a storage filename should be. The extension is what begins with the last dot; it fits when
a byte is left beside it. -/
structure StorageFilename (value keyPrefix name : Units) : Prop where
  nonempty : name ≠ []
  allowed : ∀ u ∈ name, isForbidden u = false
  characters_le : (characters name).length ≤ ATTACHMENT_PRESENTATION_FILENAME_CHARACTERS
  key_le : utf8Bytes (keyPrefix ++ name) ≤ R2_OBJECT_KEY_MAX_BYTES
  whole : WholeCharacters (cleaned value) name
  extension : ∀ stem after, cleaned value = stem ++ dotUnit :: after → dotUnit ∉ after →
    (characters (dotUnit :: after)).length ≤ 64 →
    utf8Bytes keyPrefix + utf8Bytes (dotUnit :: after) < R2_OBJECT_KEY_MAX_BYTES →
    dotUnit :: after <:+ name
  fixed : safeAttachmentStorageFilename name keyPrefix = .ok name

theorem isForbidden_underscore : isForbidden 0x5F = false := by decide

theorem cleaned_allowed (value : Units) : ∀ u ∈ cleaned value, isForbidden u = false := by
  intro u hu
  obtain ⟨v, -, rfl⟩ := List.mem_map.mp hu
  split
  · exact isForbidden_underscore
  · rename_i hallowed
    exact Bool.not_eq_true _ ▸ hallowed

theorem cleaned_ne (value : Units) : cleaned value ≠ [] := by
  rw [cleaned, replaceUnits, ne_eq, List.map_eq_nil_iff]
  split
  · decide
  · assumption

/-- Names that are allowed are not changed. -/
theorem cleaned_self (hne : name ≠ []) (hallowed : ∀ u ∈ name, isForbidden u = false) :
    cleaned name = name := by
  rw [cleaned, replaceUnits, if_neg hne]
  refine (List.map_congr_left fun u hu => ?_).trans (List.map_id' name)
  rw [hallowed u hu]
  rfl

theorem storedName_allowed (value : Units) (hpos : 0 < availableBytes) :
    ∀ u ∈ storedName (cleaned value) availableBytes, isForbidden u = false := by
  intro u hu
  have huntitled : ∀ u ∈ untitled, isForbidden u = false := by
    have hall : untitled.any isForbidden = false := by decide
    exact fun u hu => Bool.eq_false_iff.mpr (List.any_eq_false.mp hall u hu)
  exact ((storedName_bounds _ hpos).2.2.2 u hu).elim (cleaned_allowed value u) (huntitled u)

/-- Only a name that does not stay is made of characters that are not whole. -/
theorem storedName_whole (hne : name ≠ []) (h : KeptBeside name availableBytes ∨
    CutBehindDot name availableBytes ∨ OneByte name availableBytes) :
    WholeCharacters name (storedName name availableBytes) := by
  rcases h with ⟨stem, extension, h, hkept, -⟩ | ⟨stem, extension, h, hkept, -⟩ | ⟨rfl, hone⟩
  · have hbounded := boundedFilename_kept h hkept
    rw [storedName_of_ne
      (by rw [hbounded]; exact List.append_ne_nil_of_right_ne_nil _ h.extension_ne),
      hbounded]
    refine Or.inl ⟨_, _, characters_append _ h.head, ?_, ?_⟩
    · rw [h.characters]
      exact (takeBounded_front _ _ _).trans (List.prefix_append _ _)
    · rw [h.characters]
      exact List.suffix_append _ _
  · have hbounded := boundedFilename_cut h hkept
    by_cases hnil : takeBoundedCharacters name ATTACHMENT_PRESENTATION_FILENAME_CHARACTERS
        availableBytes = []
    · rw [storedName_of_nil (hbounded.trans hnil), ← take_untitled]
      exact Or.inr (takeBounded_front _ _ _)
    · rw [storedName_of_ne (hbounded ▸ hnil), hbounded]
      exact Or.inl ⟨_, [], (List.append_nil _).symm, takeBounded_front _ _ _, List.nil_suffix⟩
  · rw [(storedName_one_iff hne).mpr hone]
    exact Or.inr (by decide)

/-- The last extension is kept where it fits, of a name that stays. -/
theorem storedName_extension (h : KeptBeside name availableBytes ∨
    CutBehindDot name availableBytes ∨ OneByte name availableBytes) {stem after : Units}
    (hname : name = stem ++ dotUnit :: after) (hafter : dotUnit ∉ after)
    (hlength : (characters (dotUnit :: after)).length ≤ 64)
    (hbytes : utf8Bytes (dotUnit :: after) < availableBytes) :
    dotUnit :: after <:+ storedName name availableBytes := by
  rcases h with ⟨stem', extension, h, hkept, -⟩ | ⟨stem', extension, h, hkept, -⟩ | ⟨rfl, -⟩
  · obtain ⟨after', rfl, hafter'⟩ := h.dot
    obtain ⟨-, heq⟩ := last_unit_unique (hname.symm.trans h.split) hafter hafter'
    have hbounded := boundedFilename_kept h hkept
    rw [storedName_of_ne
      (by rw [hbounded]; exact List.append_ne_nil_of_right_ne_nil _ h.extension_ne),
      hbounded, heq]
    exact List.suffix_append _ _
  · obtain ⟨after', rfl, hafter'⟩ := h.dot
    obtain ⟨-, heq⟩ := last_unit_unique (hname.symm.trans h.split) hafter hafter'
    exact absurd (heq ▸ ⟨hlength, hlength.trans_lt (by decide), hbytes⟩) hkept
  · have hpos := utf8Bytes_pos (s := dotUnit :: after) (List.cons_ne_nil _ _)
    omega

end Stored

/-! ### Filenames in derived keys -/

/-- What a filename in a derived key should be. -/
structure DerivedFilename (name : Units) : Prop where
  nonempty : boundedAttachmentStorageFilename name ≠ []
  bytes_le : utf8Bytes (boundedAttachmentStorageFilename name) ≤
    MAX_ATTACHMENT_STORAGE_FILENAME_BYTES
  fixed : boundedAttachmentStorageFilename (boundedAttachmentStorageFilename name) =
    boundedAttachmentStorageFilename name

section Truncate

variable (maxBytes : ℕ) (cs : List Units) (usedBytes : ℕ)

theorem truncateCharacters_front : truncateCharacters maxBytes cs usedBytes <+: cs := by
  induction cs generalizing usedBytes with
  | nil => exact List.prefix_rfl
  | cons c cs ih =>
    rw [truncateCharacters]
    split
    · exact List.nil_prefix
    · exact (List.prefix_cons_inj c).mpr (ih _)

theorem truncateCharacters_bytes :
    ((truncateCharacters maxBytes cs usedBytes).map characterBytes).sum ≤ maxBytes - usedBytes := by
  induction cs generalizing usedBytes with
  | nil => exact Nat.zero_le _
  | cons c cs ih =>
    rw [truncateCharacters]
    split
    · exact Nat.zero_le _
    · have hrest := ih (usedBytes + characterBytes c)
      rw [List.map_cons, List.sum_cons]
      omega

/-- A truncated string is whole characters from the front, within the budget. -/
theorem truncateUtf8Bytes_spec (value : Units) (maxBytes : ℕ) :
    utf8Bytes (truncateUtf8Bytes value maxBytes) ≤ maxBytes ∧
      ∃ back, value = truncateUtf8Bytes value maxBytes ++ back := by
  unfold truncateUtf8Bytes
  split
  · exact ⟨Nat.zero_le _, value, rfl⟩
  · split
    · rename_i hfits
      exact ⟨hfits, [], (List.append_nil _).symm⟩
    · obtain ⟨back, hback⟩ := truncateCharacters_front maxBytes (characters value) 0
      refine ⟨?_, back.flatten, ?_⟩
      · rw [utf8Bytes, characters_of_prefix hback]
        exact truncateCharacters_bytes _ _ _
      · rw [← List.flatten_append, hback, characters_flatten]

theorem mem_of_truncate {value : Units} {maxBytes : ℕ} (h : u ∈ truncateUtf8Bytes value maxBytes) :
    u ∈ value := by
  obtain ⟨back, hback⟩ := (truncateUtf8Bytes_spec value maxBytes).2
  rw [hback]
  exact List.mem_append_left back h

end Truncate

theorem isUnsafe_underscore : isUnsafe 0x5F = false := by decide

theorem sanitizeFilename_safe (name : Units) : ∀ u ∈ sanitizeFilename name, isUnsafe u = false := by
  intro u hu
  obtain ⟨v, -, rfl⟩ := List.mem_map.mp hu
  split
  · exact isUnsafe_underscore
  · rename_i hsafe
    exact Bool.not_eq_true _ ▸ hsafe

theorem sanitizeFilename_ne (name : Units) : sanitizeFilename name ≠ [] := by
  rw [sanitizeFilename, replaceUnits, ne_eq, List.map_eq_nil_iff]
  split
  · decide
  · assumption

theorem sanitizeFilename_self {name : Units} (hne : name ≠ [])
    (hsafe : ∀ u ∈ name, isUnsafe u = false) : sanitizeFilename name = name := by
  rw [sanitizeFilename, replaceUnits, if_neg hne]
  refine (List.map_congr_left fun u hu => ?_).trans (List.map_id' name)
  rw [hsafe u hu]
  rfl

/-- `"attachment"` -/
theorem attachment_spec : unitsOf "attachment" ≠ [] ∧ utf8Bytes (unitsOf "attachment") = 10 ∧
    ∀ u ∈ unitsOf "attachment", isUnsafe u = false := by
  have hall : (unitsOf "attachment").any isUnsafe = false := by decide
  exact ⟨by decide, by decide, fun u hu => Bool.eq_false_iff.mpr (List.any_eq_false.mp hall u hu)⟩

/-- A base that is cut to what an extension leaves. -/
def derivedBase (rawBase extension : Units) : Units :=
  if truncateUtf8Bytes rawBase (MAX_ATTACHMENT_STORAGE_FILENAME_BYTES - utf8Bytes extension) ≠ []
  then truncateUtf8Bytes rawBase (MAX_ATTACHMENT_STORAGE_FILENAME_BYTES - utf8Bytes extension)
  else unitsOf "attachment"

theorem derived_parts {source : Units} (rawBase extension : Units)
    (hsafe : ∀ u ∈ source, isUnsafe u = false) (hrawBase : ∀ u ∈ rawBase, u ∈ source)
    (hextension : ∀ u ∈ extension, u ∈ source)
    (hbytes : utf8Bytes extension ≤ MAX_ATTACHMENT_STORAGE_EXTENSION_BYTES) :
    derivedBase rawBase extension ++ extension ≠ [] ∧
    utf8Bytes (derivedBase rawBase extension ++ extension) ≤
      MAX_ATTACHMENT_STORAGE_FILENAME_BYTES ∧
    ∀ u ∈ derivedBase rawBase extension ++ extension, isUnsafe u = false := by
  have hlimit : MAX_ATTACHMENT_STORAGE_FILENAME_BYTES = 240 := rfl
  have hshort : MAX_ATTACHMENT_STORAGE_EXTENSION_BYTES = 24 := rfl
  have hbase : ∃ base : Units, base ≠ [] ∧
      utf8Bytes base ≤ MAX_ATTACHMENT_STORAGE_FILENAME_BYTES - utf8Bytes extension ∧
      (∀ u ∈ base, isUnsafe u = false) ∧ derivedBase rawBase extension = base := by
    unfold derivedBase
    split
    · rename_i hne
      exact ⟨_, hne, (truncateUtf8Bytes_spec _ _).1,
        fun u hu => hsafe u (hrawBase u (mem_of_truncate hu)), rfl⟩
    · obtain ⟨hne, hten, hallowed⟩ := attachment_spec
      exact ⟨_, hne, by omega, hallowed, rfl⟩
  obtain ⟨base, hne, hle, hallowed, heq⟩ := hbase
  rw [heq]
  refine ⟨List.append_ne_nil_of_left_ne_nil hne _, ?_, fun u hu => ?_⟩
  · have hsum := utf8Bytes_append_le base extension
    omega
  · exact (List.mem_append.mp hu).elim (hallowed u) fun hu => hsafe u (hextension u hu)

/-- **The filename in a derived key** is not empty, has at most 240 bytes, and stays. -/
theorem bounded_attachment_storage_filename (name : Units) : DerivedFilename name := by
  obtain ⟨hne, hbytes, hsafe⟩ : boundedAttachmentStorageFilename name ≠ [] ∧
      utf8Bytes (boundedAttachmentStorageFilename name) ≤ MAX_ATTACHMENT_STORAGE_FILENAME_BYTES ∧
      ∀ u ∈ boundedAttachmentStorageFilename name, isUnsafe u = false := by
    unfold boundedAttachmentStorageFilename
    simp only
    split
    · rename_i hfits
      exact ⟨sanitizeFilename_ne name, hfits, sanitizeFilename_safe name⟩
    · refine derived_parts _ _ (sanitizeFilename_safe name) ?_ ?_ ?_
      · split
        · exact fun u hu => List.mem_of_mem_take hu
        · exact fun u hu => hu
      · split
        · exact fun u hu => List.mem_of_mem_drop (mem_of_truncate hu)
        · exact nofun
      · split
        · exact (truncateUtf8Bytes_spec _ _).1
        · exact Nat.zero_le _
  refine ⟨hne, hbytes, ?_⟩
  have hcleaned := sanitizeFilename_self hne hsafe
  generalize boundedAttachmentStorageFilename name = stored at hne hbytes hsafe hcleaned ⊢
  unfold boundedAttachmentStorageFilename
  simp only
  rw [hcleaned, if_pos hbytes]

/-! ### Stored names that stay -/

/-- **The storage filenames that stay.** A filename is what it should be just if the name has an
extension that is kept beside the first character of the stem, or one that is not kept while a dot
behind the first unit is; or if one byte is left and nothing or `u` is taken into it. -/
theorem stored_names_fixed {value keyPrefix : Units}
    (h : utf8Bytes keyPrefix < R2_OBJECT_KEY_MAX_BYTES) :
    ((∃ name, safeAttachmentStorageFilename value keyPrefix = .ok name ∧
        StorageFilename value keyPrefix name) ∧ DerivedFilename value) ↔
      KeptBeside (cleaned value) (R2_OBJECT_KEY_MAX_BYTES - utf8Bytes keyPrefix) ∨
        CutBehindDot (cleaned value) (R2_OBJECT_KEY_MAX_BYTES - utf8Bytes keyPrefix) ∨
        OneByte (cleaned value) (R2_OBJECT_KEY_MAX_BYTES - utf8Bytes keyPrefix) := by
  have hpos : 0 < R2_OBJECT_KEY_MAX_BYTES - utf8Bytes keyPrefix := Nat.sub_pos_of_lt h
  have hstays := storedName_stays_iff (cleaned_ne value) hpos
  obtain ⟨hne, hcharacters, hbytes, -⟩ := storedName_bounds (cleaned value) hpos
  have hallowed := storedName_allowed value hpos
  have hagain : safeAttachmentStorageFilename (storedName (cleaned value)
      (R2_OBJECT_KEY_MAX_BYTES - utf8Bytes keyPrefix)) keyPrefix =
      .ok (storedName (storedName (cleaned value)
        (R2_OBJECT_KEY_MAX_BYTES - utf8Bytes keyPrefix))
        (R2_OBJECT_KEY_MAX_BYTES - utf8Bytes keyPrefix)) := by
    rw [safeAttachmentStorageFilename_eq h, cleaned_self hne hallowed]
  rw [safeAttachmentStorageFilename_eq h, and_iff_left (bounded_attachment_storage_filename value)]
  constructor
  · rintro ⟨name, heq, hname⟩
    cases heq
    have hfixed := hname.fixed
    rw [hagain] at hfixed
    exact hstays.mp (Except.ok.inj hfixed)
  · intro hcondition
    refine ⟨_, rfl, hne, hallowed, hcharacters, ?_, storedName_whole (cleaned_ne value) hcondition,
      fun stem after hname hafter hlength hfits => ?_, ?_⟩
    · have hsum := utf8Bytes_append_le keyPrefix (storedName (cleaned value)
        (R2_OBJECT_KEY_MAX_BYTES - utf8Bytes keyPrefix))
      omega
    · exact storedName_extension hcondition hname hafter hlength (by omega)
    · rw [hagain, hstays.mpr hcondition]

theorem stored_names_fixed_sample :
    (∃ name, safeAttachmentStorageFilename (unitsOf "a/b.txt")
      (unitsOf "attachments/e/a/") = .ok name ∧
        StorageFilename (unitsOf "a/b.txt") (unitsOf "attachments/e/a/") name) ∧
      DerivedFilename (unitsOf "a/b.txt") :=
  (stored_names_fixed (by decide)).mpr (Or.inl ⟨unitsOf "a_b", unitsOf ".txt",
    ⟨by decide, by decide, unitsOf "txt", by decide, by decide⟩, ⟨by decide, by decide, by decide⟩,
    unitsOf "a", by decide, by decide⟩)

/-- A name without an extension loses its last unit each time. -/
theorem extensionless_name_shrinks :
    ¬∀ value keyPrefix : Units, utf8Bytes keyPrefix < R2_OBJECT_KEY_MAX_BYTES →
      (∃ name, safeAttachmentStorageFilename value keyPrefix = .ok name ∧
        StorageFilename value keyPrefix name) ∧ DerivedFilename value := by
  intro hall
  obtain ⟨⟨name, hname, hfilename⟩, -⟩ :=
    hall (unitsOf "README") (unitsOf "attachments/e/a/") (by decide)
  have hstored : safeAttachmentStorageFilename (unitsOf "README") (unitsOf "attachments/e/a/") =
      .ok (unitsOf "READM") := by decide
  have hagain : safeAttachmentStorageFilename (unitsOf "READM") (unitsOf "attachments/e/a/") =
      .ok (unitsOf "READ") := by decide
  rw [hstored] at hname
  cases hname
  have hfixed := hfilename.fixed
  rw [hagain] at hfixed
  exact absurd (Except.ok.inj hfixed) (by decide)

end MailPortal.Attachments
