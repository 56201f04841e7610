import MailPortal.Attachments.StorageNames

/-!
# Bounded Filenames

What is taken within two budgets is whole characters from the front, as many as fit. A filename is
bounded according to its last dot: with an extension behind a stem, with its only dot first, or
without a dot.

Main results:

* `takeBounded_keeps`, `takeBounded_self` : what fits is taken.
* `boundedFilename_bounds` : both budgets are kept.
* `boundedFilename_self` : a name with an extension that keeps both budgets stays.
-/

namespace MailPortal.Attachments

open Utf16

/-! ### Characters within two budgets -/

section Take

variable (maximumCharacters maximumBytes : ℕ) (cs : List Units) (accepted bytes : ℕ)

theorem takeCharacters_front :
    takeCharacters maximumCharacters maximumBytes cs accepted bytes <+: cs := by
  induction cs generalizing accepted bytes with
  | nil => exact List.prefix_rfl
  | cons c cs ih =>
    rw [takeCharacters]
    split
    · exact List.nil_prefix
    · split
      · exact List.nil_prefix
      · exact (List.prefix_cons_inj c).mpr (ih _ _)

theorem takeCharacters_length :
    (takeCharacters maximumCharacters maximumBytes cs accepted bytes).length ≤
      maximumCharacters - accepted := by
  induction cs generalizing accepted bytes with
  | nil => exact Nat.zero_le _
  | cons c cs ih =>
    rw [takeCharacters]
    split
    · exact Nat.zero_le _
    · split
      · exact Nat.zero_le _
      · have hrest := ih (accepted + 1) (bytes + characterBytes c)
        rw [List.length_cons]
        omega

theorem takeCharacters_bytes :
    ((takeCharacters maximumCharacters maximumBytes cs accepted bytes).map characterBytes).sum ≤
      maximumBytes - bytes := by
  induction cs generalizing accepted bytes with
  | nil => exact Nat.zero_le _
  | cons c cs ih =>
    rw [takeCharacters]
    split
    · exact Nat.zero_le _
    · split
      · exact Nat.zero_le _
      · have hrest := ih (accepted + 1) (bytes + characterBytes c)
        rw [List.map_cons, List.sum_cons]
        omega

/-- What fits is taken. -/
theorem takeCharacters_keeps {front rest : List Units}
    (hlength : accepted + front.length ≤ maximumCharacters)
    (hbytes : bytes + (front.map characterBytes).sum ≤ maximumBytes) :
    front <+: takeCharacters maximumCharacters maximumBytes (front ++ rest) accepted bytes := by
  induction front generalizing accepted bytes with
  | nil => exact List.nil_prefix
  | cons c front ih =>
    rw [List.length_cons] at hlength
    rw [List.map_cons, List.sum_cons] at hbytes
    rw [List.cons_append, takeCharacters, if_neg (by omega), if_neg (by omega),
      List.prefix_cons_inj]
    exact ih _ _ (by omega) (by omega)

end Take

section Bounded

variable (value : Units) (maximumCharacters maximumBytes : ℕ)

theorem characters_takeBounded :
    characters (takeBoundedCharacters value maximumCharacters maximumBytes) =
      takeCharacters maximumCharacters maximumBytes (characters value) 0 0 := by
  obtain ⟨back, hback⟩ :=
    takeCharacters_front maximumCharacters maximumBytes (characters value) 0 0
  exact characters_of_prefix hback

/-- A bounded string is whole characters from the front. -/
theorem takeBounded_front :
    characters (takeBoundedCharacters value maximumCharacters maximumBytes) <+:
      characters value := by
  rw [characters_takeBounded]
  exact takeCharacters_front _ _ _ _ _

theorem takeBounded_append :
    ∃ back, value = takeBoundedCharacters value maximumCharacters maximumBytes ++ back := by
  obtain ⟨back, hback⟩ := takeBounded_front value maximumCharacters maximumBytes
  have hjoin := congrArg List.flatten hback
  rw [List.flatten_append, characters_flatten, characters_flatten] at hjoin
  exact ⟨back.flatten, hjoin.symm⟩

theorem takeBounded_length : (characters
    (takeBoundedCharacters value maximumCharacters maximumBytes)).length ≤ maximumCharacters := by
  rw [characters_takeBounded]
  exact takeCharacters_length _ _ _ _ _

theorem takeBounded_bytes :
    utf8Bytes (takeBoundedCharacters value maximumCharacters maximumBytes) ≤ maximumBytes := by
  rw [utf8Bytes, characters_takeBounded]
  exact takeCharacters_bytes _ _ _ _ _

variable {value maximumCharacters maximumBytes}

/-- Characters from the front that fit are taken. -/
theorem takeBounded_keeps {front : Units} {rest : List Units}
    (hvalue : characters value = characters front ++ rest)
    (hlength : (characters front).length ≤ maximumCharacters)
    (hbytes : utf8Bytes front ≤ maximumBytes) :
    ∃ more, takeBoundedCharacters value maximumCharacters maximumBytes = front ++ more := by
  have hprefix : characters front <+:
      takeCharacters maximumCharacters maximumBytes (characters value) 0 0 := by
    rw [hvalue]
    exact takeCharacters_keeps _ _ _ _ (by rwa [Nat.zero_add]) (by rwa [Nat.zero_add])
  obtain ⟨more, hmore⟩ := hprefix
  refine ⟨more.flatten, ?_⟩
  rw [takeBoundedCharacters, ← hmore, List.flatten_append, characters_flatten]

/-- What fits as a whole stays. -/
theorem takeBounded_self (hlength : (characters value).length ≤ maximumCharacters)
    (hbytes : utf8Bytes value ≤ maximumBytes) :
    takeBoundedCharacters value maximumCharacters maximumBytes = value := by
  obtain ⟨more, hmore⟩ := takeBounded_keeps (List.append_nil _).symm hlength hbytes
  obtain ⟨back, hback⟩ := takeBounded_append value maximumCharacters maximumBytes
  rw [hmore, List.append_assoc] at hback
  obtain ⟨rfl, -⟩ := List.append_eq_nil_iff.mp (List.self_eq_append_right.mp hback)
  rw [hmore, List.append_nil]

/-- Something is taken just if the first character fits. -/
theorem takeBounded_eq_nil {c : Units} {cs : List Units} (hvalue : characters value = c :: cs)
    (hlength : 1 ≤ maximumCharacters) (maximumBytes : ℕ) :
    takeBoundedCharacters value maximumCharacters maximumBytes = [] ↔
      maximumBytes < characterBytes c := by
  have hchars := characters_takeBounded value maximumCharacters maximumBytes
  rw [hvalue, takeCharacters, if_neg (by omega)] at hchars
  constructor
  · intro hnil
    rw [hnil] at hchars
    by_contra hfits
    rw [if_neg (by omega)] at hchars
    exact absurd hchars nofun
  · intro hlong
    rw [if_pos (by omega)] at hchars
    by_contra hne
    exact characters_ne_nil hne hchars

end Bounded

/-! ### The last dot -/

/-- A name is a stem and an extension, which begins with the last dot. -/
structure HasExtension (value stem extension : Units) : Prop where
  split : value = stem ++ extension
  stem_ne : stem ≠ []
  dot : ∃ after, extension = dotUnit :: after ∧ dotUnit ∉ after

/-- A name whose only dot comes first. -/
def OnlyFirst (value : Units) : Prop := ∃ after, value = dotUnit :: after ∧ dotUnit ∉ after

theorem name_cases (value : Units) : dotUnit ∉ value ∨ OnlyFirst value ∨
    ∃ stem extension, HasExtension value stem extension := by
  by_cases h : dotUnit ∈ value
  · obtain ⟨stem, after, hvalue, hafter⟩ := exists_last_unit h
    by_cases hstem : stem = []
    · exact Or.inr (Or.inl ⟨after, by rw [hvalue, hstem]; rfl, hafter⟩)
    · exact Or.inr (Or.inr ⟨stem, _, hvalue, hstem, after, rfl, hafter⟩)
  · exact Or.inl h

/-- A dot that is not first makes an extension. -/
theorem exists_extension {value front rest : Units} (h : value = front ++ dotUnit :: rest)
    (hfront : front ≠ []) : ∃ stem extension, HasExtension value stem extension := by
  obtain ⟨u, us, rfl⟩ := List.exists_cons_of_ne_nil hfront
  obtain ⟨stem, after, hsplit, hafter⟩ : ∃ stem after,
      us ++ dotUnit :: rest = stem ++ dotUnit :: after ∧ dotUnit ∉ after :=
    exists_last_unit (List.mem_append_right _ List.mem_cons_self)
  refine ⟨u :: stem, dotUnit :: after, ?_, List.cons_ne_nil _ _, after, rfl, hafter⟩
  rw [h, List.cons_append, hsplit, List.cons_append]

theorem not_hasExtension_of_not_mem {value : Units} (h : dotUnit ∉ value) :
    ¬∃ stem extension, HasExtension value stem extension := by
  rintro ⟨stem, extension, hext⟩
  obtain ⟨after, rfl, -⟩ := hext.dot
  exact h (by rw [hext.split]; exact List.mem_append_right _ List.mem_cons_self)

theorem not_extension_of_first {value : Units} (h : OnlyFirst value) :
    ¬∃ stem extension, HasExtension value stem extension := by
  rintro ⟨stem, extension, hext⟩
  obtain ⟨after, rfl, hafter⟩ := h
  obtain ⟨u, us, hstem⟩ := List.exists_cons_of_ne_nil hext.stem_ne
  obtain ⟨after', rfl, -⟩ := hext.dot
  have hsplit := hext.split
  rw [hstem, List.cons_append] at hsplit
  exact hafter ((List.cons.inj hsplit).2 ▸ List.mem_append_right us List.mem_cons_self)

theorem HasExtension.unique {value stem extension : Units} (h : HasExtension value stem extension)
    {stem' extension' : Units} (h' : HasExtension value stem' extension') :
    stem = stem' ∧ extension = extension' := by
  obtain ⟨after, rfl, hafter⟩ := h.dot
  obtain ⟨after', rfl, hafter'⟩ := h'.dot
  exact last_unit_unique (h.split.symm.trans h'.split) hafter hafter'

theorem not_isLow_dot : isLow dotUnit = false := rfl

section

variable {value stem extension : Units} (h : HasExtension value stem extension)
include h

theorem HasExtension.characters :
    Utf16.characters value = Utf16.characters stem ++ Utf16.characters extension := by
  obtain ⟨after, hextension, -⟩ := h.dot
  rw [h.split]
  refine characters_append stem fun v hv => ?_
  rw [hextension] at hv
  cases hv
  exact not_isLow_dot

theorem HasExtension.bytes : utf8Bytes value = utf8Bytes stem + utf8Bytes extension := by
  rw [utf8Bytes, h.characters, List.map_append, List.sum_append]
  rfl

theorem HasExtension.extension_ne : extension ≠ [] := by
  obtain ⟨after, rfl, -⟩ := h.dot
  exact List.cons_ne_nil _ _

end

/-! ### Bounded filenames -/

/-- An extension that is kept. -/
def Kept (extension : Units) (maximumCharacters maximumBytes : ℕ) : Prop :=
  (characters extension).length ≤ 64 ∧ (characters extension).length < maximumCharacters ∧
    utf8Bytes extension < maximumBytes

section Filename

variable {value stem extension : Units} {maximumCharacters maximumBytes : ℕ}

/-- Without an extension the last unit of the name is left out. -/
theorem boundedFilename_no_dot (h : dotUnit ∉ value) (hcharacters : 0 < maximumCharacters)
    (hbytes : 0 < maximumBytes) : boundedFilename value maximumCharacters maximumBytes =
      takeBoundedCharacters value.dropLast maximumCharacters maximumBytes := by
  have hslice : sliceBefore value (-1) = value.dropLast := by
    rw [sliceBefore, if_pos (by decide), List.dropLast_eq_take]
    congr 1
    omega
  unfold boundedFilename
  simp [lastIndexOf_of_not_mem h, utf8Bytes_nil, hcharacters, hbytes, characters, hslice]

/-- All of a name is left out whose only dot comes first. -/
theorem boundedFilename_first (h : OnlyFirst value) (hcharacters : 0 < maximumCharacters)
    (hbytes : 0 < maximumBytes) : boundedFilename value maximumCharacters maximumBytes = [] := by
  obtain ⟨after, rfl, hafter⟩ := h
  have hindex : lastIndexOf dotUnit (dotUnit :: after) = 0 := lastIndexOf_append [] hafter
  have hslice : sliceBefore (dotUnit :: after) 0 = [] := rfl
  unfold boundedFilename
  simp [hindex, utf8Bytes_nil, hcharacters, hbytes, characters, hslice, takeBoundedCharacters,
    takeCharacters]

section

variable (h : HasExtension value stem extension)
include h

theorem HasExtension.index :
    lastIndexOf dotUnit value = stem.length ∧ 0 < (stem.length : ℤ) ∧
      sliceFrom value stem.length = extension ∧ sliceBefore value stem.length = stem := by
  obtain ⟨after, rfl, hafter⟩ := h.dot
  have hpos : 0 < (stem.length : ℤ) := Int.natCast_pos.mpr (List.length_pos_iff.mpr h.stem_ne)
  rw [h.split]
  refine ⟨lastIndexOf_append stem hafter, hpos, ?_, ?_⟩
  · rw [sliceFrom, Int.toNat_natCast, List.drop_left]
  · rw [sliceBefore, if_neg (by omega), Int.toNat_natCast, List.take_left]

theorem boundedFilename_kept (hkept : Kept extension maximumCharacters maximumBytes) :
    boundedFilename value maximumCharacters maximumBytes =
      takeBoundedCharacters stem (maximumCharacters - (characters extension).length)
        (maximumBytes - utf8Bytes extension) ++ extension := by
  obtain ⟨hindex, hpos, hfrom, hbefore⟩ := h.index
  have htrue : (decide ((characters extension).length ≤ 64) &&
      decide ((characters extension).length < maximumCharacters) &&
      decide (utf8Bytes extension < maximumBytes)) = true := by
    rw [Bool.and_eq_true, Bool.and_eq_true, decide_eq_true_eq, decide_eq_true_eq,
      decide_eq_true_eq, and_assoc]
    exact hkept
  unfold boundedFilename
  simp only [hindex, gt_iff_lt, hpos, if_true, hfrom, htrue, hbefore]

theorem boundedFilename_cut (hkept : ¬Kept extension maximumCharacters maximumBytes) :
    boundedFilename value maximumCharacters maximumBytes =
      takeBoundedCharacters value maximumCharacters maximumBytes := by
  obtain ⟨hindex, hpos, hfrom, hbefore⟩ := h.index
  have hfalse : (decide ((characters extension).length ≤ 64) &&
      decide ((characters extension).length < maximumCharacters) &&
      decide (utf8Bytes extension < maximumBytes)) = false := by
    rw [← Bool.not_eq_true, Bool.and_eq_true, Bool.and_eq_true, decide_eq_true_eq,
      decide_eq_true_eq, decide_eq_true_eq, and_assoc]
    exact hkept
  unfold boundedFilename
  simp only [hindex, gt_iff_lt, hpos, if_true, hfrom, hfalse, Bool.false_eq_true, if_false,
    List.append_nil, utf8Bytes_nil, Nat.sub_zero]
  rfl

end

theorem mem_of_takeBounded {u : UInt16}
    (h : u ∈ takeBoundedCharacters value maximumCharacters maximumBytes) : u ∈ value := by
  obtain ⟨back, hback⟩ := takeBounded_append value maximumCharacters maximumBytes
  rw [hback]
  exact List.mem_append_left back h

theorem HasExtension.head (h : HasExtension value stem extension) :
    ∀ v ∈ extension.head?, isLow v = false := by
  obtain ⟨after, rfl, -⟩ := h.dot
  intro v hv
  cases hv
  exact not_isLow_dot

/-- A bounded filename keeps both budgets, and its units are those of the name. -/
theorem boundedFilename_bounds (value : Units) (hcharacters : 0 < maximumCharacters)
    (hbytes : 0 < maximumBytes) :
    (characters (boundedFilename value maximumCharacters maximumBytes)).length ≤ maximumCharacters ∧
      utf8Bytes (boundedFilename value maximumCharacters maximumBytes) ≤ maximumBytes ∧
      ∀ u ∈ boundedFilename value maximumCharacters maximumBytes, u ∈ value := by
  rcases name_cases value with hno | hfirst | ⟨stem, extension, h⟩
  · rw [boundedFilename_no_dot hno hcharacters hbytes]
    exact ⟨takeBounded_length _ _ _, takeBounded_bytes _ _ _,
      fun u hu => (List.dropLast_sublist value).subset (mem_of_takeBounded hu)⟩
  · rw [boundedFilename_first hfirst hcharacters hbytes]
    exact ⟨Nat.zero_le _, Nat.zero_le _, nofun⟩
  · by_cases hkept : Kept extension maximumCharacters maximumBytes
    · rw [boundedFilename_kept h hkept, characters_append _ h.head, utf8Bytes_append _ h.head]
      obtain ⟨-, hshort, hfits⟩ := hkept
      refine ⟨?_, ?_, fun u hu => ?_⟩
      · rw [List.length_append]
        have hstem := takeBounded_length stem (maximumCharacters - (characters extension).length)
          (maximumBytes - utf8Bytes extension)
        omega
      · have hstem := takeBounded_bytes stem (maximumCharacters - (characters extension).length)
          (maximumBytes - utf8Bytes extension)
        omega
      · rw [h.split]
        rcases List.mem_append.mp hu with hu | hu
        · exact List.mem_append_left _ (mem_of_takeBounded hu)
        · exact List.mem_append_right _ hu
    · rw [boundedFilename_cut h hkept]
      exact ⟨takeBounded_length _ _ _, takeBounded_bytes _ _ _, fun u hu => mem_of_takeBounded hu⟩

/-- A name with an extension that keeps both budgets stays. -/
theorem boundedFilename_self (h : HasExtension value stem extension)
    (hcharacters : (characters value).length ≤ maximumCharacters)
    (hbytes : utf8Bytes value ≤ maximumBytes) :
    boundedFilename value maximumCharacters maximumBytes = value := by
  by_cases hkept : Kept extension maximumCharacters maximumBytes
  · have hlength := congrArg List.length h.characters
    have hsum := h.bytes
    rw [List.length_append] at hlength
    rw [boundedFilename_kept h hkept, takeBounded_self (by omega) (by omega), ← h.split]
  · rw [boundedFilename_cut h hkept, takeBounded_self hcharacters hbytes]

end Filename

end MailPortal.Attachments
