import Mathlib.Algebra.BigOperators.Group.List.Basic
import Mathlib.Algebra.GroupWithZero.Nat
import Mathlib.Order.Nat

/-!
# Strings of UTF-16

A string is a list of code units, of which surrogates need not come in pairs. Its characters are the
pairs and the units that are left; a surrogate that is left alone is encoded like U+FFFD.

Main results:

* `characters_flatten` : the characters are the string.
* `characters_of_prefix` : whole characters from the front of a string stay its characters.
* `characters_append` : no pair is made where what follows does not begin with half of one.
* `characters_split` : the characters before a place and behind it, unless it is inside a pair.
-/

namespace Utf16

abbrev Units := List UInt16

variable {u : UInt16} {s : Units} {i : ℕ}
variable {v : UInt16} {front back : List Units} {t c : Units}

def isHigh (u : UInt16) : Bool := 0xD800 ≤ u && u ≤ 0xDBFF

def isLow (u : UInt16) : Bool := 0xDC00 ≤ u && u ≤ 0xDFFF

/-- The characters of a string. -/
def characters : Units → List Units
  | [] => []
  | [u] => [[u]]
  | u :: v :: rest =>
    if isHigh u ∧ isLow v then [u, v] :: characters rest else [u] :: characters (v :: rest)

/-- The length in UTF-8 of a character. -/
def characterBytes : Units → ℕ
  | [u] => if u < 0x80 then 1 else if u < 0x800 then 2 else 3
  | _ => 4

/-- The length in UTF-8. -/
def utf8Bytes (s : Units) : ℕ := ((characters s).map characterBytes).sum

/-! ### Characters -/

theorem not_isHigh_of_isLow (h : isLow u = true) : isHigh u = false := by
  simp only [isLow, isHigh, Bool.and_eq_true, decide_eq_true_eq, Bool.and_eq_false_iff,
    decide_eq_false_iff_not, UInt16.le_iff_toNat_le] at h ⊢
  have hlow : (0xDC00 : UInt16).toNat = 0xDC00 := rfl
  have hhigh : (0xDBFF : UInt16).toNat = 0xDBFF := rfl
  omega

/-- The characters are the string. -/
theorem characters_flatten (s : Units) : (characters s).flatten = s := by
  induction s using characters.induct with
  | case1 => rfl
  | case2 => rfl
  | case3 u v rest h ih => rw [characters, if_pos h, List.flatten_cons, ih]; rfl
  | case4 u v rest h ih => rw [characters, if_neg h, List.flatten_cons, ih]; rfl

theorem characters_ne_nil (h : s ≠ []) : characters s ≠ [] := fun hnil =>
  h (by rw [← characters_flatten s, hnil]; rfl)

theorem characters_singleton (u : UInt16) : characters [u] = [[u]] := rfl

/-- What is not the first half of a pair is a character. -/
theorem characters_cons (h : isHigh u = false ∨ ∀ v ∈ s.head?, isLow v = false) :
    characters (u :: s) = [u] :: characters s := by
  cases s with
  | nil => rfl
  | cons v s =>
    have hpair : ¬(isHigh u = true ∧ isLow v = true) := by
      rintro ⟨hhigh, hlow⟩
      rcases h with h | h
      · exact absurd hhigh (by rw [h]; nofun)
      · exact absurd hlow (by rw [h v rfl]; nofun)
    rw [characters, if_neg hpair]

/-- Each character begins with a unit. -/
theorem head_characters (h : front ++ back = characters (v :: s)) (hne : front ≠ []) :
    ∃ w, front.flatten = v :: w := by
  obtain ⟨c, cs, rfl⟩ := List.exists_cons_of_ne_nil hne
  cases s with
  | nil =>
    obtain ⟨rfl, -⟩ := List.cons.inj h
    exact ⟨cs.flatten, rfl⟩
  | cons w s =>
    rw [characters] at h
    split at h
    · obtain ⟨rfl, -⟩ := List.cons.inj h
      exact ⟨w :: cs.flatten, rfl⟩
    · obtain ⟨rfl, -⟩ := List.cons.inj h
      exact ⟨cs.flatten, rfl⟩

/-- **Whole characters** from the front of a string stay its characters. -/
theorem characters_of_prefix (h : front ++ back = characters s) :
    characters front.flatten = front := by
  induction s using characters.induct generalizing front with
  | case1 =>
    rw [(List.append_eq_nil_iff.mp h).1]
    rfl
  | case2 u =>
    cases front with
    | nil => rfl
    | cons c cs =>
      obtain ⟨rfl, hrest⟩ := List.cons.inj h
      rw [(List.append_eq_nil_iff.mp hrest).1]
      rfl
  | case3 u v rest hpair ih =>
    rw [characters, if_pos hpair] at h
    cases front with
    | nil => rfl
    | cons c cs =>
      obtain ⟨rfl, hrest⟩ := List.cons.inj h
      rw [List.flatten_cons]
      calc characters (u :: v :: cs.flatten) = [u, v] :: characters cs.flatten := by
            rw [characters, if_pos hpair]
        _ = [u, v] :: cs := by rw [ih hrest]
  | case4 u v rest hpair ih =>
    rw [characters, if_neg hpair] at h
    cases front with
    | nil => rfl
    | cons c cs =>
      obtain ⟨rfl, hrest⟩ := List.cons.inj h
      cases cs with
      | nil => rfl
      | cons d ds =>
        obtain ⟨w, hw⟩ := head_characters hrest (List.cons_ne_nil _ _)
        rw [List.flatten_cons]
        calc characters (u :: (d :: ds).flatten) = characters (u :: v :: w) := by rw [hw]
          _ = [u] :: characters (v :: w) := by rw [characters, if_neg hpair]
          _ = [u] :: d :: ds := by rw [← hw, ih hrest]

/-- **Strings side by side** have the characters of both, when the second does not begin with half
of a pair. -/
theorem characters_append (s : Units) (h : ∀ v ∈ t.head?, isLow v = false) :
    characters (s ++ t) = characters s ++ characters t := by
  induction s using characters.induct with
  | case1 => rfl
  | case2 u =>
    rw [List.singleton_append, characters_cons (Or.inr h)]
    rfl
  | case3 u v rest hpair ih =>
    rw [List.cons_append, List.cons_append, characters, if_pos hpair, ih, characters, if_pos hpair,
      List.cons_append]
  | case4 u v rest hpair ih =>
    rw [List.cons_append, List.cons_append, characters, if_neg hpair, ← List.cons_append, ih,
      characters, if_neg hpair, List.cons_append]

/-! ### Bytes -/

theorem utf8Bytes_append (s : Units) (h : ∀ v ∈ t.head?, isLow v = false) :
    utf8Bytes (s ++ t) = utf8Bytes s + utf8Bytes t := by
  rw [utf8Bytes, characters_append s h, List.map_append, List.sum_append]
  rfl

theorem characterBytes_pos (c : Units) : 1 ≤ characterBytes c := by
  unfold characterBytes
  split
  · split
    · exact le_rfl
    · split <;> decide
  · decide

theorem characterBytes_surrogate (h : isHigh u = true ∨ isLow u = true) :
    characterBytes [u] = 3 := by
  have hle : 0xD800 ≤ u.toNat := by
    simp only [isHigh, isLow, Bool.and_eq_true, decide_eq_true_eq, UInt16.le_iff_toNat_le] at h
    rcases h with h | h
    · exact h.1
    · exact le_trans (by decide) h.1
  have h80 : ¬u < 0x80 := by
    rw [UInt16.lt_iff_toNat_lt]
    exact Nat.not_lt.mpr (le_trans (by decide) hle)
  have h800 : ¬u < 0x800 := by
    rw [UInt16.lt_iff_toNat_lt]
    exact Nat.not_lt.mpr (le_trans (by decide) hle)
  rw [characterBytes, if_neg h80, if_neg h800]

theorem utf8Bytes_nil : utf8Bytes [] = 0 := rfl

theorem utf8Bytes_pos (h : s ≠ []) : 1 ≤ utf8Bytes s := by
  obtain ⟨c, cs, hcs⟩ := List.exists_cons_of_ne_nil (characters_ne_nil h)
  rw [utf8Bytes, hcs, List.map_cons, List.sum_cons]
  exact (characterBytes_pos c).trans (Nat.le_add_right _ _)

/-- Side by side, strings are not longer. -/
theorem utf8Bytes_append_le (s t : Units) : utf8Bytes (s ++ t) ≤ utf8Bytes s + utf8Bytes t := by
  induction s using characters.induct with
  | case1 => exact (Nat.zero_add _).ge
  | case2 u =>
    by_cases hpair : isHigh u = true ∧ ∃ v ∈ t.head?, isLow v = true
    · obtain ⟨hhigh, v, hv, hlow⟩ := hpair
      obtain ⟨rest, rfl⟩ : ∃ rest, t = v :: rest := ⟨t.tail, List.eq_cons_of_mem_head? hv⟩
      rw [List.singleton_append, utf8Bytes, characters, if_pos ⟨hhigh, hlow⟩, utf8Bytes, utf8Bytes,
        characters_cons (Or.inl (not_isHigh_of_isLow hlow)), characters_singleton]
      simp only [List.map_cons, List.map_nil, List.sum_cons, List.sum_nil]
      rw [characterBytes_surrogate (Or.inl hhigh), characterBytes_surrogate (Or.inr hlow)]
      have hfour : characterBytes [u, v] = 4 := rfl
      omega
    · have hcons : isHigh u = false ∨ ∀ v ∈ t.head?, isLow v = false := by
        rw [not_and_or, Bool.not_eq_true] at hpair
        refine hpair.imp_right fun hnone v hv => ?_
        rw [← Bool.not_eq_true]
        exact fun hlow => hnone ⟨v, hv, hlow⟩
      rw [List.singleton_append, utf8Bytes, characters_cons hcons, List.map_cons, List.sum_cons]
      rfl
  | case3 u v rest hpair ih =>
    rw [List.cons_append, List.cons_append, utf8Bytes, characters, if_pos hpair, utf8Bytes,
      characters, if_pos hpair, List.map_cons, List.sum_cons, List.map_cons, List.sum_cons,
      Nat.add_assoc]
    exact Nat.add_le_add_left ih _
  | case4 u v rest hpair ih =>
    rw [List.cons_append, List.cons_append, utf8Bytes, characters, if_neg hpair, utf8Bytes,
      characters, if_neg hpair, List.map_cons, List.sum_cons, List.map_cons, List.sum_cons,
      Nat.add_assoc]
    exact Nat.add_le_add_left ih _

theorem characterBytes_singleton_le (u : UInt16) : characterBytes [u] ≤ 3 := by
  rw [characterBytes]
  split
  · decide
  · split <;> decide

/-- Without its last unit a string is not longer. -/
theorem utf8Bytes_dropLast_le (s : Units) : utf8Bytes s.dropLast ≤ utf8Bytes s := by
  induction s using characters.induct with
  | case1 => exact le_rfl
  | case2 u => exact Nat.zero_le _
  | case3 u v rest hpair ih =>
    have hpairBytes : utf8Bytes (u :: v :: rest) = 4 + utf8Bytes rest := by
      rw [utf8Bytes, characters, if_pos hpair, List.map_cons, List.sum_cons]
      rfl
    cases rest with
    | nil =>
      rw [hpairBytes]
      exact (characterBytes_singleton_le u).trans (by decide)
    | cons w rest =>
      rw [hpairBytes, List.dropLast_cons_cons, List.dropLast_cons_cons, utf8Bytes, characters,
        if_pos hpair, List.map_cons, List.sum_cons]
      exact Nat.add_le_add_left ih 4
  | case4 u v rest hpair ih =>
    have hbytes : utf8Bytes (u :: v :: rest) = characterBytes [u] + utf8Bytes (v :: rest) := by
      rw [utf8Bytes, characters, if_neg hpair, List.map_cons, List.sum_cons]
      rfl
    rw [hbytes, List.dropLast_cons_cons]
    exact (utf8Bytes_append_le [u] (v :: rest).dropLast).trans (Nat.add_le_add_left ih _)

/-! ### Places -/

/-- The place between the two halves of a pair. -/
def insidePair (s : Units) : ℕ → Bool
  | 0 => false
  | i + 1 => (s[i]?).any isHigh && (s[i + 1]?).any isLow

theorem insidePair_cons (h : insidePair (u :: s) (i + 1) = false) : insidePair s i = false := by
  cases i with
  | zero => rfl
  | succ i => exact h

theorem insidePair_succ (h : insidePair s (i + 1) = true) :
    ∃ u v, s[i]? = some u ∧ isHigh u = true ∧ s[i + 1]? = some v ∧ isLow v = true := by
  obtain ⟨hhigh, hlow⟩ := Bool.and_eq_true_iff.mp h
  obtain ⟨u, hu, huhigh⟩ := (Option.any_eq_true _ _).mp hhigh
  obtain ⟨v, hv, hvlow⟩ := (Option.any_eq_true _ _).mp hlow
  exact ⟨u, v, hu, huhigh, hv, hvlow⟩

/-- A place is not inside a pair when what stands there is no second half. -/
theorem insidePair_of_not_low (hv : s[i]? = some v) (hlow : isLow v = false) :
    insidePair s i = false := by
  cases i with
  | zero => rfl
  | succ i => rw [insidePair, hv, Option.any_some, hlow, Bool.and_false]

/-- Nor when what stands in front of it is no first half. -/
theorem insidePair_of_not_high (hu : s[i]? = some u) (hhigh : isHigh u = false) :
    insidePair s (i + 1) = false := by
  rw [insidePair, hu, Option.any_some, hhigh, Bool.false_and]

theorem not_isLow_of_isHigh (h : isHigh u = true) : isLow u = false := by
  by_contra hlow
  have hboth := not_isHigh_of_isLow (Bool.not_eq_false _ ▸ hlow)
  rw [hboth] at h
  exact Bool.false_ne_true h

/-- Inside a pair, the places next to it are not. -/
theorem insidePair_next (h : insidePair s i = true) :
    insidePair s (i - 1) = false ∧ insidePair s (i + 1) = false := by
  cases i with
  | zero => exact absurd h Bool.false_ne_true
  | succ i =>
    obtain ⟨u, v, hu, hhigh, hv, hlow⟩ := insidePair_succ h
    exact ⟨insidePair_of_not_low hu (not_isLow_of_isHigh hhigh),
      insidePair_of_not_high hv (not_isHigh_of_isLow hlow)⟩

theorem insidePair_length (s : Units) : insidePair s s.length = false := by
  cases hlength : s.length with
  | zero => rfl
  | succ n =>
    rw [insidePair, List.getElem?_eq_none hlength.le, Option.any_none, Bool.and_false]

theorem insidePair_take {n : ℕ} (h : insidePair s i = false) : insidePair (s.take n) i = false := by
  cases i with
  | zero => rfl
  | succ i =>
    rw [insidePair, Bool.and_eq_false_iff] at h ⊢
    rw [List.getElem?_take, List.getElem?_take]
    split
    · split
      · exact h
      · exact .inr rfl
    · exact .inl rfl

/-- **The characters before a place and behind it** are the characters, unless the place is inside a
pair. -/
theorem characters_split (h : insidePair s i = false) :
    characters s = characters (s.take i) ++ characters (s.drop i) := by
  induction s using characters.induct generalizing i with
  | case1 => rw [List.take_nil, List.drop_nil]; rfl
  | case2 u =>
    cases i with
    | zero => rfl
    | succ i => rw [List.take_succ_cons, List.take_nil, List.drop_succ_cons, List.drop_nil]; rfl
  | case3 u v rest hpair ih =>
    cases i with
    | zero => rfl
    | succ i =>
      cases i with
      | zero => exact absurd (Bool.and_eq_true_iff.mpr hpair) (Bool.eq_false_iff.mp h)
      | succ i =>
        have hrest := ih (insidePair_cons (insidePair_cons h))
        rw [characters, if_pos hpair, hrest, List.take_succ_cons, List.take_succ_cons, characters,
          if_pos hpair]
        rfl
  | case4 u v rest hpair ih =>
    cases i with
    | zero => rfl
    | succ i =>
      have hhead : isHigh u = false ∨ ∀ w ∈ ((v :: rest).take i).head?, isLow w = false := by
        rw [not_and_or, Bool.not_eq_true, Bool.not_eq_true] at hpair
        refine hpair.imp_right fun hlow w hw => ?_
        cases i with
        | zero => cases hw
        | succ i => exact Option.some.inj hw ▸ hlow
      rw [characters, if_neg hpair, ih (insidePair_cons h), List.take_succ_cons,
        characters_cons hhead]
      rfl

/-- Behind a character come the others. -/
theorem characters_drop {cs : List Units} (h : characters s = c :: cs) :
    characters (s.drop c.length) = cs := by
  cases s with
  | nil => cases h
  | cons u s =>
    cases s with
    | nil =>
      cases h
      rfl
    | cons v rest =>
      rw [characters] at h
      split at h
      · cases h
        rfl
      · cases h
        rfl

theorem length_character (h : c ∈ characters s) : c.length = 1 ∨ c.length = 2 := by
  induction s using characters.induct with
  | case1 => cases h
  | case2 u => exact .inl (by rw [List.mem_singleton.mp h]; rfl)
  | case3 u v rest hpair ih =>
    rw [characters, if_pos hpair] at h
    rcases List.mem_cons.mp h with rfl | h
    · exact .inr rfl
    · exact ih h
  | case4 u v rest hpair ih =>
    rw [characters, if_neg hpair] at h
    rcases List.mem_cons.mp h with rfl | h
    · exact .inl rfl
    · exact ih h

theorem length_le_two_mul (s : Units) : s.length ≤ 2 * (characters s).length := by
  induction s using characters.induct with
  | case1 => exact Nat.zero_le _
  | case2 u => exact Nat.le_succ 1
  | case3 u v rest hpair ih =>
    rw [characters, if_pos hpair]
    simp only [List.length_cons]
    omega
  | case4 u v rest hpair ih =>
    rw [characters, if_neg hpair]
    simp only [List.length_cons] at ih ⊢
    omega

end Utf16
