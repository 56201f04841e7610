import Mathlib.Data.List.Nodup
import Mathlib.Data.List.TakeWhile

/-!
# First Occurrences

`eraseDups` keeps the first occurrence of each element of a list, in the order of the list.

Main results:

* `eraseDups_filter`: it does not matter whether elements are left out before or after.
* `eraseDups_pairwise`: the elements come in the order of their first occurrences.
-/

namespace Distinct

variable {α : Type*} [BEq α] [LawfulBEq α]

/-- Elements may be left out before or after the repeated ones. -/
theorem eraseDups_filter (p : α → Bool) (xs : List α) :
    (xs.filter p).eraseDups = xs.eraseDups.filter p := by
  generalize hn : xs.length = n
  induction n using Nat.strong_induction_on generalizing xs with
  | _ n ih =>
    cases xs with
    | nil => rfl
    | cons a xs =>
      have hshort : (xs.filter fun b => !b == a).length < n := by
        rw [← hn, List.length_cons]
        exact Nat.lt_succ_of_le (List.length_filter_le _ _)
      have hrest := ih _ hshort (xs.filter fun b => !b == a) rfl
      rw [List.filter_filter] at hrest
      rw [List.eraseDups_cons, List.filter_cons, List.filter_cons]
      by_cases ha : p a = true
      · rw [if_pos ha, if_pos ha, List.eraseDups_cons, List.filter_filter, ← hrest]
        simp only [Bool.and_comm]
      · have hsame : ∀ b ∈ xs, (p b && !b == a) = p b := by
          intro b _
          by_cases hb : b = a
          · rw [hb, Bool.eq_false_iff.mpr ha, Bool.false_and]
          · simp [hb]
        rw [if_neg ha, if_neg ha, ← hrest, List.filter_congr hsame]

/-- **The elements come in the order of their first occurrences.** -/
theorem eraseDups_pairwise (xs : List α) :
    xs.eraseDups.Pairwise fun a b => xs.idxOf a < xs.idxOf b := by
  induction xs with
  | nil => exact List.Pairwise.nil
  | cons a xs ih =>
    rw [List.eraseDups_cons, eraseDups_filter, List.pairwise_cons]
    have hne : ∀ b ∈ xs.eraseDups.filter fun b => !b == a, (a :: xs).idxOf b = xs.idxOf b + 1 := by
      intro b hb
      have hba : ¬b = a := by simpa using (List.mem_filter.mp hb).2
      exact List.idxOf_cons_ne xs (Ne.symm hba)
    refine ⟨fun b hb => ?_, ?_⟩
    · rw [List.idxOf_cons_self, hne b hb]
      omega
    · refine (ih.filter _).imp_of_mem fun {b c} hb hc h => ?_
      rw [hne b hb, hne c hc]
      omega

theorem eraseDups_nodup (xs : List α) : xs.eraseDups.Nodup :=
  (eraseDups_pairwise xs).imp fun h heq => by rw [heq] at h; omega

end Distinct
