import Mathlib.Data.List.Perm.Basic
import Mathlib.Data.List.Sort

/-!
# Sorts by a Comparator

A sort is given a comparator, which may call different values equal. When the comparator is
consistent on the values of the list, the result is ordered, and values that it calls equal stay in
their order. When it is not, the result is some arrangement of the list, and which one is up to the
implementation.

Main results:

* `exists_sort_ne` : when two different values are called equal, some sort arranges two
  arrangements of the list differently.
-/

namespace Sorting

variable {α : Type} {cmp : α → α → Ordering} {xs ys : List α}
variable {a b : α}

/-- The comparator orders the values of the list. -/
structure Consistent (cmp : α → α → Ordering) (xs : List α) : Prop where
  refl : ∀ a ∈ xs, cmp a a = .eq
  swap : ∀ a ∈ xs, ∀ b ∈ xs, cmp b a = (cmp a b).swap
  trans : ∀ a ∈ xs, ∀ b ∈ xs, ∀ c ∈ xs, cmp a b ≠ .gt → cmp b c ≠ .gt → cmp a c ≠ .gt

/-- No two different values of the list are called equal. -/
def NoTies (cmp : α → α → Ordering) (xs : List α) : Prop :=
  ∀ a ∈ xs, ∀ b ∈ xs, cmp a b = .eq → a = b

/-- What a sort may make of a list. -/
structure Sorts (cmp : α → α → Ordering) (xs ys : List α) : Prop where
  perm : ys.Perm xs
  ordered : Consistent cmp xs → ys.Pairwise fun a b => cmp a b ≠ .gt
  stable : Consistent cmp xs → ∀ a ∈ xs,
    ys.filter (fun b => cmp a b = .eq) = xs.filter fun b => cmp a b = .eq

/-- A sort that works for every comparator, as `Array.prototype.sort` does. -/
structure ArraySort where
  sort : {α : Type} → (α → α → Ordering) → List α → List α
  sorts : ∀ {α : Type} (cmp : α → α → Ordering) (xs : List α), Sorts cmp xs (sort cmp xs)

theorem Consistent.perm (h : Consistent cmp xs) (hperm : xs.Perm ys) : Consistent cmp ys where
  refl a ha := h.refl a (hperm.mem_iff.mpr ha)
  swap a ha b hb := h.swap a (hperm.mem_iff.mpr ha) b (hperm.mem_iff.mpr hb)
  trans a ha b hb c hc :=
    h.trans a (hperm.mem_iff.mpr ha) b (hperm.mem_iff.mpr hb) c (hperm.mem_iff.mpr hc)

/-! ### Sorted alike -/

namespace ArraySort

variable (s : ArraySort)

theorem perm (cmp : α → α → Ordering) (xs : List α) : (s.sort cmp xs).Perm xs :=
  (s.sorts cmp xs).perm

variable {s}

/-- Lists that are sorted alike are arrangements of each other. -/
theorem perm_of_sort_eq (h : s.sort cmp xs = s.sort cmp ys) : xs.Perm ys :=
  (s.perm cmp xs).symm.trans (h ▸ s.perm cmp ys)

/-- Without ties, arrangements of a list are sorted alike. -/
theorem sort_eq_of_perm (h : Consistent cmp xs) (hties : NoTies cmp xs) (hperm : xs.Perm ys) :
    s.sort cmp xs = s.sort cmp ys := by
  have hsame : (s.sort cmp xs).Perm (s.sort cmp ys) :=
    (s.perm cmp xs).trans (hperm.trans (s.perm cmp ys).symm)
  refine hsame.eq_of_pairwise (fun a b ha hb hab hba => ?_) ((s.sorts cmp xs).ordered h)
    ((s.sorts cmp ys).ordered (h.perm hperm))
  have hax := (s.perm cmp xs).mem_iff.mp ha
  have hbx := (s.perm cmp xs).mem_iff.mp (hsame.mem_iff.mpr hb)
  refine hties a hax b hbx ?_
  rw [h.swap a hax b hbx] at hba
  cases hcmp : cmp a b with
  | lt => rw [hcmp] at hba; exact absurd rfl hba
  | eq => rfl
  | gt => exact absurd hcmp hab

/-- A tie keeps two arrangements of the list apart. -/
theorem exists_perm_sort_ne (h : Consistent cmp xs) (ha : a ∈ xs) (hb : b ∈ xs) (hne : a ≠ b)
    (htie : cmp a b = .eq) : ∃ ys, xs.Perm ys ∧ s.sort cmp xs ≠ s.sort cmp ys := by
  classical
  by_contra hall
  push Not at hall
  have hfirst := hall (a :: xs.erase a) (List.perm_cons_erase ha)
  have hsecond := hall (b :: xs.erase b) (List.perm_cons_erase hb)
  have hstable : ∀ ys, xs.Perm ys → s.sort cmp xs = s.sort cmp ys →
      (s.sort cmp xs).filter (fun c => cmp a c = .eq) = ys.filter fun c => cmp a c = .eq := by
    intro ys hperm hsort
    rw [hsort]
    exact (s.sorts cmp ys).stable (h.perm hperm) a (hperm.mem_iff.mp ha)
  have hheads := (hstable _ (List.perm_cons_erase ha) hfirst).symm.trans
    (hstable _ (List.perm_cons_erase hb) hsecond)
  have hrefl := h.refl a ha
  simp only [List.filter_cons, hrefl, htie, decide_true, if_true] at hheads
  exact hne (List.cons.inj hheads).1

/-- A list whose values are all called equal stays as it is. -/
theorem sort_of_tied (h : Consistent cmp xs) (ha : a ∈ xs) (htied : ∀ b ∈ xs, cmp a b = .eq) :
    s.sort cmp xs = xs := by
  have hall : ∀ ys : List α, ys.Perm xs → ys.filter (fun b => cmp a b = .eq) = ys :=
    fun ys hperm => List.filter_eq_self.mpr fun b hb =>
      decide_eq_true (htied b (hperm.mem_iff.mp hb))
  rw [← hall _ (s.perm cmp xs), (s.sorts cmp xs).stable h a ha, hall xs (.refl xs)]

end ArraySort

/-! ### Some sort -/

/-- The comparator as an order of the values of the list. -/
def leOn (cmp : α → α → Ordering) (xs : List α) (a b : { a // a ∈ xs }) : Bool :=
  cmp a.1 b.1 ≠ .gt

/-- A stable sort of the list. -/
def stableSort (cmp : α → α → Ordering) (xs : List α) : List α :=
  (xs.attach.mergeSort (leOn cmp xs)).map Subtype.val

theorem leOn_trans (h : Consistent cmp xs) (a b c : { a // a ∈ xs }) (hab : leOn cmp xs a b = true)
    (hbc : leOn cmp xs b c = true) : leOn cmp xs a c = true :=
  decide_eq_true (h.trans a a.2 b b.2 c c.2 (of_decide_eq_true hab) (of_decide_eq_true hbc))

theorem leOn_total (h : Consistent cmp xs) (a b : { a // a ∈ xs }) :
    (leOn cmp xs a b || leOn cmp xs b a) = true := by
  have hswap := h.swap a a.2 b b.2
  cases hcmp : cmp a.1 b.1 <;> simp [leOn, hswap, hcmp]

theorem stableSort_perm (cmp : α → α → Ordering) (xs : List α) : (stableSort cmp xs).Perm xs := by
  have hperm := (List.mergeSort_perm xs.attach (leOn cmp xs)).map Subtype.val
  rwa [List.attach_map_subtype_val] at hperm

theorem stableSort_ordered (h : Consistent cmp xs) :
    (stableSort cmp xs).Pairwise fun a b => cmp a b ≠ .gt := by
  refine List.pairwise_map.mpr ?_
  exact (List.pairwise_mergeSort (leOn_trans h) (leOn_total h) xs.attach).imp
    fun hle => of_decide_eq_true hle

/-- Values that are called equal stay in their order. -/
theorem stableSort_stable (h : Consistent cmp xs) (ha : a ∈ xs) :
    (stableSort cmp xs).filter (fun b => cmp a b = .eq) = xs.filter fun b => cmp a b = .eq := by
  let ties : List { a // a ∈ xs } := xs.attach.filter fun b => cmp a b.1 = .eq
  have hties : ties.Pairwise fun b c => leOn cmp xs b c = true := by
    refine List.pairwise_of_forall_mem_list fun b hb c hc => ?_
    have hab := of_decide_eq_true (List.mem_filter.mp hb).2
    have hac := of_decide_eq_true (List.mem_filter.mp hc).2
    have hba : cmp b.1 a = .eq := by rw [h.swap a ha b b.2, hab]; rfl
    refine decide_eq_true (h.trans b b.2 a ha c c.2 ?_ ?_)
    · rw [hba]; exact Ordering.noConfusion
    · rw [hac]; exact Ordering.noConfusion
  have hsub : ties.Sublist (xs.attach.mergeSort (leOn cmp xs)) :=
    List.sublist_mergeSort (leOn_trans h) (leOn_total h) hties List.filter_sublist
  have hval : ties.map Subtype.val = xs.filter fun b => cmp a b = .eq := by
    conv_rhs => rw [← List.attach_map_subtype_val xs]
    rw [List.filter_map]
    rfl
  have hkept : (xs.filter fun b => cmp a b = .eq).Sublist
      ((stableSort cmp xs).filter fun b => cmp a b = .eq) := by
    have hfiltered := (hsub.map Subtype.val).filter fun b => decide (cmp a b = .eq)
    rw [hval, List.filter_filter] at hfiltered
    simp only [Bool.and_self] at hfiltered
    exact hfiltered
  exact (hkept.eq_of_length (((stableSort_perm cmp xs).filter _).length_eq).symm).symm

open Classical in
/-- A sort that leaves the list as it is when the comparator is not consistent. -/
noncomputable def orderlySort : ArraySort where
  sort cmp xs := if Consistent cmp xs then stableSort cmp xs else xs
  sorts cmp xs := by
    by_cases h : Consistent cmp xs
    · rw [if_pos h]
      exact ⟨stableSort_perm cmp xs, fun _ => stableSort_ordered h, fun _ _ => stableSort_stable h⟩
    · rw [if_neg h]
      exact ⟨.refl xs, fun hc => absurd hc h, fun _ _ _ => rfl⟩

theorem orderlySort_of_not_consistent (h : ¬Consistent cmp xs) :
    orderlySort.sort cmp xs = xs := if_neg h

/-- **A tie leaves the arrangement open**, even when the comparator is not consistent. -/
theorem exists_sort_ne (ha : a ∈ xs) (hb : b ∈ xs) (hne : a ≠ b) (htie : cmp a b = .eq) :
    ∃ (s : ArraySort) (ys : List α), xs.Perm ys ∧ s.sort cmp xs ≠ s.sort cmp ys := by
  by_cases h : Consistent cmp xs
  · exact ⟨orderlySort, ArraySort.exists_perm_sort_ne h ha hb hne htie⟩
  · classical
    by_contra hall
    push Not at hall
    have harrange : ∀ ys, xs.Perm ys → xs = ys := fun ys hperm => by
      have hsort := hall orderlySort ys hperm
      rwa [orderlySort_of_not_consistent h,
        orderlySort_of_not_consistent fun hc => h (hc.perm hperm.symm)] at hsort
    have hheads := (harrange _ (List.perm_cons_erase ha)).symm.trans
      (harrange _ (List.perm_cons_erase hb))
    exact hne (List.cons.inj hheads).1

end Sorting
