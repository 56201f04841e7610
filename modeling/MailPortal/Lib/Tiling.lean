import Mathlib.Data.List.Sort

/-!
# Tilings of an Interval

Spans tile an interval when each begins where the one before ends, so that every position of the
interval is in just one of them.
-/

namespace Tiling

/-- The spans tile the positions from `start` up to `stop`. -/
def Tiles : ℕ → ℕ → List (ℕ × ℕ) → Prop
  | start, stop, [] => start = stop
  | start, stop, span :: spans => span.1 = start ∧ start ≤ span.2 ∧ Tiles span.2 stop spans

variable {start middle stop : ℕ} {spans : List (ℕ × ℕ)}

theorem Tiles.concat {span : ℕ × ℕ} (h : Tiles start middle spans) (hstart : span.1 = middle)
    (hle : middle ≤ span.2) : Tiles start span.2 (spans ++ [span]) := by
  induction spans generalizing start with
  | nil => exact ⟨hstart.trans h.symm, h.symm ▸ hle, rfl⟩
  | cons first spans ih => exact ⟨h.1, h.2.1, ih h.2.2⟩

/-- Spans of which each begins where the one before ends. -/
def touches (spans : List (ℕ × ℕ)) : Bool :=
  (spans.zip spans.tail).all fun (previous, span) => span.1 = previous.2

/-- Spans that touch tile what is between the first and the last. -/
theorem tiles_of_touches (hspan : ∀ span ∈ spans, span.1 ≤ span.2) (htouch : touches spans = true)
    (hfirst : spans.head?.map Prod.fst = some start)
    (hlast : spans.getLast?.map Prod.snd = some stop) :
    Tiles start stop spans := by
  induction spans generalizing start with
  | nil => exact absurd hfirst nofun
  | cons span spans ih =>
    obtain rfl : span.1 = start := Option.some.inj hfirst
    refine ⟨rfl, hspan span List.mem_cons_self, ?_⟩
    cases spans with
    | nil => exact Option.some.inj hlast
    | cons next spans =>
      simp only [touches, List.tail_cons, List.zip_cons_cons, List.all_cons, Bool.and_eq_true,
        decide_eq_true_eq] at htouch
      refine ih (fun span hmem => hspan span (List.mem_cons_of_mem _ hmem)) htouch.2 ?_ ?_
      · rw [List.head?_cons, Option.map_some, htouch.1]
      · rwa [List.getLast?_cons_cons] at hlast

section

variable (h : Tiles start stop spans)
include h

/-- Spans that tile an interval touch. -/
theorem Tiles.touches : touches spans = true := by
  induction spans generalizing start with
  | nil => rfl
  | cons span spans ih =>
    cases spans with
    | nil => rfl
    | cons next spans =>
      have hrest := ih h.2.2
      simp only [Tiling.touches, List.tail_cons, List.zip_cons_cons, List.all_cons,
        Bool.and_eq_true,
        decide_eq_true_eq] at hrest ⊢
      exact ⟨h.2.2.1, hrest⟩

theorem Tiles.head? (hne : spans ≠ []) : spans.head?.map Prod.fst = some start := by
  cases spans with
  | nil => exact absurd rfl hne
  | cons span spans => exact congrArg some h.1

theorem Tiles.getLast? (hne : spans ≠ []) : spans.getLast?.map Prod.snd = some stop := by
  induction spans generalizing start with
  | nil => exact absurd rfl hne
  | cons span spans ih =>
    cases spans with
    | nil => exact congrArg some h.2.2
    | cons next spans =>
      rw [List.getLast?_cons_cons]
      exact ih h.2.2 (List.cons_ne_nil _ _)

theorem Tiles.start_le : ∀ span ∈ spans, start ≤ span.1 := by
  induction spans generalizing start with
  | nil => exact nofun
  | cons span spans ih =>
    intro other hmem
    rcases List.mem_cons.mp hmem with rfl | hmem
    · exact h.1.ge
    · exact h.2.1.trans (ih h.2.2 other hmem)

/-- Spans that tile an interval are sorted. -/
theorem Tiles.sorted : spans.Pairwise fun a b => a.1 ≤ b.1 := by
  induction spans generalizing start with
  | nil => exact List.Pairwise.nil
  | cons span spans ih =>
    refine List.pairwise_cons.mpr ⟨fun other hmem => ?_, ih h.2.2⟩
    exact h.1.le.trans (h.2.1.trans (h.2.2.start_le other hmem))

end

end Tiling
