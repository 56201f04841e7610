import Mathlib.Data.List.Basic
import Mathlib.Data.List.Induction

/-!
# Lists with Separators

A list may be split at a separator, which the core has, and at a separator that is doubled. Doubled
separators are found from the front and do not overlap.

Main results:

* `splitDouble_append` : a list is split behind what is before its first doubled separator.
* `splitDouble_ending` : a change behind the last separator changes the last piece only.
-/

namespace Separated

variable {α : Type} [DecidableEq α] {sep : α}
variable {cs : List α}
variable {front : List α} {parts : List (List α)}

/-- `split`, at the doubled separator. -/
def splitDouble (sep : α) : List α → List (List α)
  | [] => [[]]
  | [a] => [[a]]
  | a :: b :: cs =>
    if a = sep ∧ b = sep then [] :: splitDouble sep cs
    else (splitDouble sep (b :: cs)).modifyHead (a :: ·)

/-- How often the doubled separator is found. -/
def countDouble (sep : α) : List α → ℕ
  | [] => 0
  | [_] => 0
  | a :: b :: cs => if a = sep ∧ b = sep then countDouble sep cs + 1 else countDouble sep (b :: cs)

theorem length_splitDouble (sep : α) (cs : List α) :
    (splitDouble sep cs).length = countDouble sep cs + 1 := by
  induction cs using splitDouble.induct sep with
  | case1 => rfl
  | case2 => rfl
  | case3 a b cs h ih => rw [splitDouble, countDouble, if_pos h, if_pos h, List.length_cons, ih]
  | case4 a b cs h ih =>
      rw [splitDouble, countDouble, if_neg h, if_neg h, List.length_modifyHead, ih]

theorem splitDouble_ne_nil (sep : α) (cs : List α) : splitDouble sep cs ≠ [] := by
  rw [← List.length_pos_iff, length_splitDouble]
  exact Nat.succ_pos _

/-- The pieces with the doubled separators between them are the list. -/
theorem intercalate_splitDouble (sep : α) (cs : List α) :
    [sep, sep].intercalate (splitDouble sep cs) = cs := by
  induction cs using splitDouble.induct sep with
  | case1 => rfl
  | case2 => rfl
  | case3 a b cs h ih =>
    rw [splitDouble, if_pos h, List.intercalate_cons_of_ne_nil (splitDouble_ne_nil sep cs),
      ih, h.1, h.2]
    rfl
  | case4 a b cs h ih =>
    obtain ⟨p, ps, hpieces⟩ := List.exists_cons_of_ne_nil (splitDouble_ne_nil sep (b :: cs))
    rw [splitDouble, if_neg h, hpieces, List.modifyHead_cons, List.intercalate_cons_cons_left,
      ← hpieces, ih]

/-- Without a doubled separator there is one piece. -/
theorem splitDouble_of_count (h : countDouble sep cs = 0) : splitDouble sep cs = [cs] := by
  have hlength := length_splitDouble sep cs
  rw [h] at hlength
  obtain ⟨p, hp⟩ := List.length_eq_one_iff.mp hlength
  have hjoin := intercalate_splitDouble sep cs
  rw [hp, List.intercalate_singleton] at hjoin
  rw [hp, hjoin]

/-- A list is split behind what is before its first doubled separator. -/
theorem splitDouble_append {l : List α} (r : List α) (h : countDouble sep l = 0)
    (hlast : l.getLast? ≠ some sep) :
    splitDouble sep (l ++ sep :: sep :: r) = l :: splitDouble sep r := by
  induction l using splitDouble.induct sep with
  | case1 => rw [List.nil_append, splitDouble, if_pos ⟨rfl, rfl⟩]
  | case2 a =>
    have ha : ¬(a = sep ∧ sep = sep) := fun heq => hlast (by rw [heq.1]; rfl)
    rw [List.singleton_append, splitDouble, if_neg ha, splitDouble, if_pos ⟨rfl, rfl⟩,
      List.modifyHead_cons]
  | case3 a b cs hab ih =>
    rw [countDouble, if_pos hab] at h
    exact absurd h (Nat.succ_ne_zero _)
  | case4 a b cs hab ih =>
    rw [countDouble, if_neg hab] at h
    rw [List.getLast?_cons_cons] at hlast
    have hrest := ih h hlast
    rw [List.cons_append, List.cons_append, splitDouble, if_neg hab, ← List.cons_append, hrest,
      List.modifyHead_cons]

/-- A list that is empty or ends in a separator. -/
def EndsInSep (sep : α) (cs : List α) : Prop := cs = [] ∨ cs.getLast? = some sep

/-- A list that does not begin with a separator and has no doubled one. -/
structure Single (sep : α) (w : List α) : Prop where
  head : w.head? ≠ some sep
  count : countDouble sep w = 0

/-- **Behind the last separator** a change changes the last piece only. -/
theorem splitDouble_ending (h : EndsInSep sep front) :
    ∃ pieces last, EndsInSep sep last ∧ [sep, sep].intercalate (pieces ++ [last]) = front ∧
      ∀ w, Single sep w → splitDouble sep (front ++ w) = pieces ++ [last ++ w] := by
  induction front using splitDouble.induct sep with
  | case1 =>
    refine ⟨[], [], Or.inl rfl, rfl, fun w hw => ?_⟩
    exact splitDouble_of_count hw.count
  | case2 a =>
    obtain rfl : a = sep := Option.some.inj (h.resolve_left (List.cons_ne_nil _ _))
    refine ⟨[], [a], Or.inr rfl, rfl, fun w hw => ?_⟩
    cases w with
    | nil => rfl
    | cons b w =>
      have hb : ¬(a = a ∧ b = a) := fun heq => hw.head (congrArg some heq.2)
      rw [List.singleton_append, splitDouble, if_neg hb, splitDouble_of_count hw.count]
      rfl
  | case3 a b cs hab ih =>
    have hcs : EndsInSep sep cs := by
      cases cs with
      | nil => exact Or.inl rfl
      | cons c cs =>
        refine Or.inr ?_
        have hlast := h.resolve_left (List.cons_ne_nil _ _)
        rwa [List.getLast?_cons_cons, List.getLast?_cons_cons] at hlast
    obtain ⟨pieces, last, hends, hjoin, hsplit⟩ := ih hcs
    refine ⟨[] :: pieces, last, hends, ?_, fun w hw => ?_⟩
    · rw [List.cons_append, List.intercalate_cons_of_ne_nil (by simp), hjoin, hab.1, hab.2]
      rfl
    · rw [List.cons_append, List.cons_append, splitDouble, if_pos hab, hsplit w hw]
      rfl
  | case4 a b cs hab ih =>
    have hlast : (b :: cs).getLast? = some sep := by
      have hlast := h.resolve_left (List.cons_ne_nil _ _)
      rwa [List.getLast?_cons_cons] at hlast
    obtain ⟨pieces, last, hends, hjoin, hsplit⟩ := ih (Or.inr hlast)
    cases pieces with
    | nil =>
      rw [List.nil_append, List.intercalate_singleton] at hjoin
      subst hjoin
      refine ⟨[], a :: b :: cs, Or.inr ?_, List.intercalate_singleton, fun w hw => ?_⟩
      · rwa [List.getLast?_cons_cons]
      · rw [List.cons_append, List.cons_append, splitDouble, if_neg hab, ← List.cons_append,
          hsplit w hw]
        rfl
    | cons p pieces =>
      refine ⟨(a :: p) :: pieces, last, hends, ?_, fun w hw => ?_⟩
      · rw [List.cons_append, List.intercalate_cons_cons_left, ← List.cons_append, hjoin]
      · rw [List.cons_append, List.cons_append, splitDouble, if_neg hab, ← List.cons_append,
          hsplit w hw]
        rfl

/-! ### Behind the last separator -/

/-- Pieces, with a separator behind each. -/
def lead (sep : α) (pieces : List (List α)) : List α := pieces.flatMap (· ++ [sep])

omit [DecidableEq α] in
theorem intercalate_append (pieces : List (List α)) {rest : List (List α)} (h : rest ≠ []) :
    [sep].intercalate (pieces ++ rest) = lead sep pieces ++ [sep].intercalate rest := by
  induction pieces with
  | nil => rfl
  | cons p pieces ih =>
    rw [List.cons_append, List.intercalate_cons_of_ne_nil (List.append_ne_nil_of_right_ne_nil _ h),
      ih, lead, lead, List.flatMap_cons, List.append_assoc, List.append_assoc, List.append_assoc]

omit [DecidableEq α] in
theorem mem_intercalate {a : α} (h : a ∈ [sep].intercalate parts) :
    a = sep ∨ ∃ part ∈ parts, a ∈ part := by
  induction parts with
  | nil => cases h
  | cons p parts ih =>
    cases parts with
    | nil => exact Or.inr ⟨p, List.mem_cons_self, by rwa [List.intercalate_singleton] at h⟩
    | cons q parts =>
      rw [List.intercalate_cons_cons, List.mem_append, List.mem_append, List.mem_singleton] at h
      rcases h with (h | h) | h
      · exact Or.inr ⟨p, List.mem_cons_self, h⟩
      · exact Or.inl h
      · obtain hsep | ⟨part, hmem, ha⟩ := ih h
        · exact Or.inl hsep
        · exact Or.inr ⟨part, List.mem_cons_of_mem _ hmem, ha⟩

omit [DecidableEq α] in
theorem lead_eq_intercalate {pieces : List (List α)} (h : pieces ≠ []) :
    lead sep pieces = [sep].intercalate pieces ++ [sep] := by
  induction pieces with
  | nil => exact absurd rfl h
  | cons p pieces ih =>
    cases pieces with
    | nil => rw [List.intercalate_singleton, lead, List.flatMap_singleton]
    | cons q pieces =>
      rw [List.intercalate_cons_cons, List.append_assoc, ← ih (List.cons_ne_nil _ _), lead, lead,
        List.flatMap_cons]

omit [DecidableEq α] in
theorem endsInSep_append (front : List α) (h : EndsInSep sep cs) (hne : cs ≠ []) :
    EndsInSep sep (front ++ cs) :=
  Or.inr (by rw [List.getLast?_append_of_ne_nil _ hne]; exact h.resolve_left hne)

omit [DecidableEq α] in
theorem endsInSep_concat (cs : List α) : EndsInSep sep (cs ++ [sep]) :=
  Or.inr List.getLast?_concat

omit [DecidableEq α] in
theorem endsInSep_lead (pieces : List (List α)) : EndsInSep sep (lead sep pieces) := by
  cases pieces with
  | nil => exact Or.inl rfl
  | cons p pieces =>
    rw [lead_eq_intercalate (List.cons_ne_nil _ _)]
    exact endsInSep_concat _

omit [DecidableEq α] in
/-- A list is what its last separator ends, and a rest without separators. -/
theorem exists_front (sep : α) (cs : List α) :
    ∃ front last, cs = front ++ last ∧ EndsInSep sep front ∧ sep ∉ last := by
  induction cs using List.reverseRecOn with
  | nil => exact ⟨[], [], rfl, Or.inl rfl, List.not_mem_nil⟩
  | append_singleton cs a ih =>
    obtain ⟨front, last, rfl, hfront, hlast⟩ := ih
    by_cases ha : a = sep
    · subst ha
      exact ⟨front ++ last ++ [a], [], (List.append_nil _).symm, endsInSep_concat _,
        List.not_mem_nil⟩
    · refine ⟨front, last ++ [a], List.append_assoc _ _ _, hfront, fun hmem => ?_⟩
      rcases List.mem_append.mp hmem with hmem | hmem
      · exact hlast hmem
      · exact ha (List.mem_singleton.mp hmem).symm

/-- What a separator ends is split on its own. -/
theorem splitOn_front (h : EndsInSep sep front) :
    ∃ pieces, lead sep pieces = front ∧
      ∀ w, (front ++ w).splitOn sep = pieces ++ w.splitOn sep := by
  rcases h with rfl | hlast
  · exact ⟨[], rfl, fun w => rfl⟩
  · obtain ⟨f, rfl⟩ : ∃ f, front = f ++ [sep] := by
      rw [List.getLast?_eq_some_iff] at hlast
      exact hlast
    refine ⟨f.splitOn sep, ?_, fun w => ?_⟩
    · rw [lead_eq_intercalate (List.splitOn_ne_nil sep f), List.intercalate_splitOn]
    · rw [List.append_assoc, List.singleton_append, List.splitOn_append_cons_self]

/-! ### Pieces without separators -/

theorem countDouble_cons_of_ne {a : α} (cs : List α) (h : a ≠ sep) :
    countDouble sep (a :: cs) = countDouble sep cs := by
  cases cs with
  | nil => rfl
  | cons b cs => rw [countDouble, if_neg fun hab => h hab.1]

theorem countDouble_append {p : List α} (cs : List α) (h : sep ∉ p) :
    countDouble sep (p ++ cs) = countDouble sep cs := by
  induction p with
  | nil => rfl
  | cons a p ih =>
    rw [List.cons_append, countDouble_cons_of_ne _ (Ne.symm (List.ne_of_not_mem_cons h)),
      ih (List.not_mem_of_not_mem_cons h)]

/-- What has no separator has no doubled one. -/
theorem countDouble_of_not_mem (h : sep ∉ cs) : countDouble sep cs = 0 := by
  rw [← List.append_nil cs, countDouble_append [] h]
  rfl

omit [DecidableEq α] in
theorem head?_ne_of_not_mem (h : sep ∉ cs) : cs.head? ≠ some sep :=
  fun heq => h (List.mem_of_head? heq)

theorem single_of_not_mem (h : sep ∉ cs) : Single sep cs :=
  ⟨head?_ne_of_not_mem h, countDouble_of_not_mem h⟩

/-- Pieces that are not empty, with separators between them, have no doubled separator, and no
separator at their ends. -/
theorem single_intercalate (hne : ∀ part ∈ parts, part ≠ []) (hsep : ∀ part ∈ parts, sep ∉ part) :
    Single sep ([sep].intercalate parts) ∧ ([sep].intercalate parts).getLast? ≠ some sep := by
  induction parts with
  | nil => exact ⟨⟨nofun, rfl⟩, nofun⟩
  | cons p parts ih =>
    obtain ⟨hp, hparts⟩ := List.forall_mem_cons.mp hne
    obtain ⟨hpsep, hpartsSep⟩ := List.forall_mem_cons.mp hsep
    cases parts with
    | nil =>
      rw [List.intercalate_singleton]
      exact ⟨single_of_not_mem hpsep, fun heq => hpsep (List.mem_of_getLast? heq)⟩
    | cons q parts =>
      obtain ⟨⟨hhead, hcount⟩, hlast⟩ := ih hparts hpartsSep
      have hrest : [sep].intercalate (q :: parts) ≠ [] := by
        obtain ⟨a, as, rfl⟩ := List.exists_cons_of_ne_nil (hparts q List.mem_cons_self)
        rw [List.intercalate_cons_cons_left]
        exact List.cons_ne_nil _ _
      rw [List.intercalate_cons_cons, List.append_assoc, List.singleton_append]
      refine ⟨⟨?_, ?_⟩, ?_⟩
      · obtain ⟨a, as, rfl⟩ := List.exists_cons_of_ne_nil hp
        exact fun heq => head?_ne_of_not_mem hpsep heq
      · rw [countDouble_append _ hpsep]
        obtain ⟨b, bs, hb⟩ := List.exists_cons_of_ne_nil hrest
        rw [hb] at hhead hcount ⊢
        rw [countDouble, if_neg fun hab => hhead (congrArg some hab.2), hcount]
      · obtain ⟨b, bs, hb⟩ := List.exists_cons_of_ne_nil hrest
        rw [hb] at hlast ⊢
        rwa [List.getLast?_append_of_ne_nil _ (List.cons_ne_nil _ _), List.getLast?_cons_cons]

end Separated
