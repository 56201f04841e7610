import Mathlib.Data.List.Basic
import Mathlib.Order.Monotone.Basic
import Mathlib.Order.Nat

/-!
# Cutting a Text into Windows

A text is cut from its front. Where a window begins, a rule tells where it ends and another where
the next one begins, which is at least one place further on. A window is an excerpt of the text; it
becomes a piece if there is something in it, and the cut ends with the text or with `cap` pieces.

Main results:

* `cut_windows` : the pieces are those of `windowsFrom`, which cover the text from its front on,
  without a hole, up to its end unless the cap was met.
* `mem_windowsFrom` : which windows these are, by their indices.
* `Covers.exists_mem` : a place that is covered is in a window.
-/

namespace Windows

variable {α χ : Type*}
variable {windows : List (ℕ × ℕ)}

/-- The windows go on from `start` to `stop`: each begins before the end of what is covered, or
there. -/
def Covers : ℕ → ℕ → List (ℕ × ℕ) → Prop
  | start, stop, [] => start = stop
  | start, stop, window :: windows => window.1 ≤ start ∧ Covers window.2 stop windows

/-- A place that is covered is in a window. -/
theorem Covers.exists_mem {start stop i : ℕ} (h : Covers start stop windows) (hstart : start ≤ i)
    (hstop : i < stop) : ∃ window ∈ windows, window.1 ≤ i ∧ i < window.2 := by
  induction windows generalizing start with
  | nil => exact absurd hstop (Nat.not_lt.mpr (h ▸ hstart))
  | cons window windows ih =>
    by_cases hin : i < window.2
    · exact ⟨window, List.mem_cons_self, h.1.trans hstart, hin⟩
    · obtain ⟨found, hmem, hfound⟩ := ih h.2 (Nat.not_lt.mp hin)
      exact ⟨found, List.mem_cons_of_mem _ hmem, hfound⟩

/-- A place in front of the end of a window is in a window. -/
theorem Covers.exists_mem_of_lt {start stop i : ℕ} (h : Covers start stop windows)
    (hstart : start ≤ i) {late : ℕ × ℕ} (hmem : late ∈ windows) (hlate : i < late.2) :
    ∃ window ∈ windows, window.1 ≤ i ∧ i < window.2 := by
  induction windows generalizing start with
  | nil => cases hmem
  | cons window windows ih =>
    by_cases hin : i < window.2
    · exact ⟨window, List.mem_cons_self, h.1.trans hstart, hin⟩
    · have hrest : late ∈ windows := by
        rcases List.mem_cons.mp hmem with rfl | hrest
        · exact absurd hlate hin
        · exact hrest
      obtain ⟨found, hmem, hfound⟩ := ih h.2 (Nat.not_lt.mp hin) hrest
      exact ⟨found, List.mem_cons_of_mem _ hmem, hfound⟩

/-! ### The cut -/

variable (length cap : ℕ) (stop next : ℕ → ℕ) (excerpt : ℕ × ℕ → List α) (piece : ℕ → List α → χ)

/-- The window at a place. -/
def window (start : ℕ) : ℕ × ℕ := (start, stop start)

/-- Put a window behind the pieces, under the next number. -/
def push (pieces : List χ) (window : ℕ × ℕ) : List χ :=
  if (excerpt window).isEmpty then pieces else pieces ++ [piece pieces.length (excerpt window)]

/-- Go on from a place, behind the pieces so far. -/
def cut (start : ℕ) (pieces : List χ) : List χ :=
  if start < length ∧ pieces.length < cap then
    let pieces := push excerpt piece pieces (window stop start)
    if length ≤ stop start then pieces else cut (max (next start) (start + 1)) pieces
  else pieces
termination_by length - start
decreasing_by omega

/-- The windows that are cut from a place on, behind so many pieces. -/
def windowsFrom (start pieces : ℕ) : List (ℕ × ℕ) :=
  if start < length ∧ pieces < cap then
    window stop start ::
      if length ≤ stop start then []
      else windowsFrom (max (next start) (start + 1))
        (if (excerpt (window stop start)).isEmpty then pieces else pieces + 1)
  else []
termination_by length - start
decreasing_by omega

/-- Where window `k` begins, if there are so many. -/
def place : ℕ → ℕ
  | 0 => 0
  | k + 1 => max (next (place k)) (place k + 1)

/-- How many of the first `k` windows have something in them. -/
def filled : ℕ → ℕ
  | 0 => 0
  | k + 1 => if (excerpt (window stop (place next k))).isEmpty then filled k else filled k + 1

/-- Window `k` is cut: the text goes on where it begins, no window before it ends the text, and
there are fewer pieces than the cap. -/
structure Cuts (k : ℕ) : Prop where
  inside : place next k < length
  unended : ∀ j < k, stop (place next j) < length
  capped : filled stop next excerpt k < cap

/-- The pieces of windows, numbered from `n` on. -/
def piecesOf (n : ℕ) (windows : List (ℕ × ℕ)) : List χ :=
  (((windows.map excerpt).filter fun text => !text.isEmpty).zipIdx n).map fun p => piece p.2 p.1

variable {length cap stop next excerpt piece} {start : ℕ} {pieces : List χ}

variable (excerpt piece pieces) in
theorem push_append (window : ℕ × ℕ) (windows : List (ℕ × ℕ)) :
    push excerpt piece pieces window ++
        piecesOf excerpt piece (push excerpt piece pieces window).length windows =
      pieces ++ piecesOf excerpt piece pieces.length (window :: windows) := by
  rw [push, piecesOf, piecesOf, List.map_cons]
  by_cases hempty : (excerpt window).isEmpty = true
  · rw [if_pos hempty, List.filter_cons_of_neg (by rw [hempty]; exact Bool.false_ne_true)]
  · rw [if_neg hempty, List.filter_cons_of_pos (by simpa using hempty), List.zipIdx_cons,
      List.map_cons, List.append_assoc, List.singleton_append, List.length_append,
      List.length_singleton]

theorem length_push (pieces : List χ) (window : ℕ × ℕ) :
    (push excerpt piece pieces window).length =
      if (excerpt window).isEmpty then pieces.length else pieces.length + 1 := by
  rw [push]
  split
  · rfl
  · rw [List.length_append, List.length_singleton]

theorem length_push_le (pieces : List χ) (window : ℕ × ℕ) :
    (push excerpt piece pieces window).length ≤ pieces.length + 1 := by
  rw [length_push]
  split
  · exact Nat.le_succ _
  · exact le_rfl

/-- There are no more pieces than the cap. -/
theorem length_cut_le (hpieces : pieces.length ≤ cap) :
    (cut length cap stop next excerpt piece start pieces).length ≤ cap := by
  induction start, pieces using cut.induct length cap stop next excerpt piece with
  | case1 start pieces h hend =>
    rw [cut, if_pos h]
    simp only [if_pos hend]
    exact (length_push_le _ _).trans h.2
  | case2 start pieces h pushed hend ih =>
    rw [cut, if_pos h]
    simp only [if_neg hend]
    exact ih ((length_push_le _ _).trans h.2)
  | case3 start pieces h =>
    rw [cut, if_neg h]
    exact hpieces

/-- What the two rules promise, from the places `Inv` on: a window does not end behind the text, and
ends where the next one begins or behind it; each is `step` places further on at least. -/
structure Rules (length : ℕ) (stop next : ℕ → ℕ) (Inv : ℕ → Prop) (step : ℕ) : Prop where
  stop_le : ∀ start, Inv start → start < length → stop start ≤ length
  lt_stop : ∀ start, Inv start → start < length → start < stop start
  next_le : ∀ start, Inv start → start < length → stop start < length → next start ≤ stop start
  inv : ∀ start, Inv start → start < length → stop start < length →
    Inv (max (next start) (start + 1))
  step_le : ∀ start, Inv start → start < length → stop start < length →
    start + step ≤ max (next start) (start + 1)

variable (cap excerpt piece pieces) in
/-- **The pieces are those of windows** that leave no hole. They end with the text; or the cap is
met, and they go as far as that many steps. -/
theorem cut_windows {Inv : ℕ → Prop} {step covered : ℕ} (rules : Rules length stop next Inv step)
    (hinv : Inv start) (hcovered : start ≤ covered) (hlength : covered ≤ length)
    (hsteps : step * pieces.length ≤ start) :
    ∃ reached,
      cut length cap stop next excerpt piece start pieces = pieces ++ piecesOf excerpt piece
        pieces.length (windowsFrom length cap stop next excerpt start pieces.length) ∧
      Covers covered reached (windowsFrom length cap stop next excerpt start pieces.length) ∧
      (∀ w ∈ windowsFrom length cap stop next excerpt start pieces.length,
        ∃ place, Inv place ∧ place < length ∧ w = window stop place) ∧
      (reached = length ∨ reached ≤ length ∧ step * cap ≤ reached ∧
        cap ≤ (cut length cap stop next excerpt piece start pieces).length) := by
  induction start, pieces using cut.induct length cap stop next excerpt piece
      generalizing covered with
  | case1 start pieces h hend =>
    have hlast : windowsFrom length cap stop next excerpt start pieces.length =
        [window stop start] := by
      rw [windowsFrom, if_pos h, if_pos hend]
    rw [hlast]
    refine ⟨length, ?_, ⟨hcovered, ?_⟩, ?_, .inl rfl⟩
    · rw [cut, if_pos h]
      simp only [if_pos hend]
      have hpush := push_append excerpt piece pieces (window stop start) []
      rwa [piecesOf, List.map_nil, List.filter_nil, List.zipIdx_nil, List.map_nil,
        List.append_nil] at hpush
    · exact le_antisymm (rules.stop_le start hinv h.1) hend
    · intro w hw
      exact ⟨start, hinv, h.1, List.mem_singleton.mp hw⟩
  | case2 start pieces h pushed hend =>
    rename_i ih
    have hinside := Nat.not_le.mp hend
    have hnext : max (next start) (start + 1) ≤ stop start :=
      max_le (rules.next_le start hinv h.1 hinside) (rules.lt_stop start hinv h.1)
    have hstep := rules.step_le start hinv h.1 hinside
    have hcount : step * (push excerpt piece pieces (window stop start)).length ≤
        max (next start) (start + 1) := by
      calc step * (push excerpt piece pieces (window stop start)).length
          ≤ step * (pieces.length + 1) := Nat.mul_le_mul_left _ (length_push_le _ _)
        _ = step * pieces.length + step := Nat.mul_succ _ _
        _ ≤ max (next start) (start + 1) := (Nat.add_le_add_right hsteps _).trans hstep
    have hcut : cut length cap stop next excerpt piece start pieces =
        cut length cap stop next excerpt piece (max (next start) (start + 1))
          (push excerpt piece pieces (window stop start)) := by
      rw [cut, if_pos h]
      simp only [if_neg hend]
    have hmore : windowsFrom length cap stop next excerpt start pieces.length =
        window stop start :: windowsFrom length cap stop next excerpt
          (max (next start) (start + 1))
          (push excerpt piece pieces (window stop start)).length := by
      rw [windowsFrom, if_pos h, if_neg hend, length_push]
    obtain ⟨reached, hpieces, hcovers, hwindows, hreached⟩ :=
      ih (rules.inv start hinv h.1 hinside) hnext hinside.le hcount
    rw [hmore]
    refine ⟨reached, ?_, ⟨hcovered, hcovers⟩, ?_, hcut ▸ hreached⟩
    · rw [hcut, hpieces]
      exact push_append _ _ _ _ _
    · intro w hw
      rcases List.mem_cons.mp hw with rfl | hw
      · exact ⟨start, hinv, h.1, rfl⟩
      · exact hwindows w hw
  | case3 start pieces h =>
    have hcut : cut length cap stop next excerpt piece start pieces = pieces := by
      rw [cut, if_neg h]
    have hnone : windowsFrom length cap stop next excerpt start pieces.length = [] := by
      rw [windowsFrom, if_neg h]
    rw [hnone]
    refine ⟨covered, ?_, rfl, nofun, ?_⟩
    · rw [hcut]
      exact (List.append_nil _).symm
    · by_cases hstart : start < length
      · have hcap := Nat.not_lt.mp fun hlt => h ⟨hstart, hlt⟩
        refine .inr ⟨hlength, ?_, hcap.trans_eq (by rw [hcut])⟩
        exact ((Nat.mul_le_mul_left _ hcap).trans hsteps).trans hcovered
      · exact .inl (le_antisymm hlength ((Nat.not_lt.mp hstart).trans hcovered))

/-! ### The windows by their indices -/

theorem place_mono : Monotone (place next) :=
  monotone_nat_of_le_succ fun _ => (Nat.le_succ _).trans (le_max_right _ _)

theorem filled_mono : Monotone (filled stop next excerpt) := by
  refine monotone_nat_of_le_succ fun k => ?_
  rw [filled]
  split
  · exact le_rfl
  · exact Nat.le_succ _

/-- **The windows from an index on** are those that are cut. -/
theorem mem_windowsFrom {k : ℕ} {w : ℕ × ℕ} (hunended : ∀ j < k, stop (place next j) < length) :
    w ∈ windowsFrom length cap stop next excerpt (place next k) (filled stop next excerpt k) ↔
      ∃ j, k ≤ j ∧ Cuts length cap stop next excerpt j ∧ w = window stop (place next j) := by
  induction hn : length - place next k using Nat.strongRecOn generalizing k with
  | ind n ih =>
    rw [windowsFrom]
    by_cases h : place next k < length ∧ filled stop next excerpt k < cap
    · have hcuts : Cuts length cap stop next excerpt k := ⟨h.1, hunended, h.2⟩
      rw [if_pos h, List.mem_cons]
      by_cases hend : length ≤ stop (place next k)
      · rw [if_pos hend]
        constructor
        · rintro (rfl | hnone)
          · exact ⟨k, le_rfl, hcuts, rfl⟩
          · cases hnone
        · rintro ⟨j, hkj, hj, rfl⟩
          rcases hkj.lt_or_eq with hlt | rfl
          · exact absurd (hj.unended k hlt) (Nat.not_lt.mpr hend)
          · exact .inl rfl
      · have hunended' : ∀ j < k + 1, stop (place next j) < length := by
          intro j hj
          rcases Nat.lt_succ_iff_lt_or_eq.mp hj with hj | rfl
          · exact hunended j hj
          · exact Nat.not_le.mp hend
        have hlater : place next k < place next (k + 1) :=
          (Nat.lt_succ_self _).trans_le (le_max_right _ _)
        have hrest := ih (length - place next (k + 1)) (by omega) hunended' rfl
        rw [place, filled] at hrest
        rw [if_neg hend, hrest]
        constructor
        · rintro (rfl | ⟨j, hkj, hj, rfl⟩)
          · exact ⟨k, le_rfl, hcuts, rfl⟩
          · exact ⟨j, (Nat.le_succ k).trans hkj, hj, rfl⟩
        · rintro ⟨j, hkj, hj, rfl⟩
          rcases hkj.lt_or_eq with hlt | rfl
          · exact .inr ⟨j, hlt, hj, rfl⟩
          · exact .inl rfl
    · rw [if_neg h]
      refine ⟨fun hnone => absurd hnone List.not_mem_nil, ?_⟩
      rintro ⟨j, hkj, hj, -⟩
      exact absurd ⟨(place_mono hkj).trans_lt hj.inside, (filled_mono hkj).trans_lt hj.capped⟩ h

/-- The pieces have the excerpts in which there is something. -/
theorem map_piecesOf {f : χ → List α} (hf : ∀ i text, f (piece i text) = text) (n : ℕ)
    (windows : List (ℕ × ℕ)) : (piecesOf excerpt piece n windows).map f =
      (windows.map excerpt).filter fun text => !text.isEmpty := by
  rw [piecesOf, List.map_map, List.map_congr_left fun p _ => hf p.2 p.1]
  exact List.zipIdx_map_fst _ _

/-- The pieces have the numbers one after the other. -/
theorem numbers_piecesOf {f : χ → ℕ} (hf : ∀ i text, f (piece i text) = i) (n : ℕ)
    (windows : List (ℕ × ℕ)) : (piecesOf excerpt piece n windows).map f =
      List.range' n (piecesOf excerpt piece n windows).length := by
  rw [piecesOf, List.map_map, List.map_congr_left fun p _ => hf p.2 p.1, List.length_map,
    List.length_zipIdx]
  exact List.zipIdx_map_snd _ _

variable (piece) in
/-- A window with something in it is a piece. -/
theorem exists_piece (n : ℕ) {window : ℕ × ℕ} (h : window ∈ windows) (hne : excerpt window ≠ []) :
    ∃ i, piece i (excerpt window) ∈ piecesOf excerpt piece n windows := by
  have hmem : excerpt window ∈ (windows.map excerpt).filter fun text => !text.isEmpty := by
    refine List.mem_filter.mpr ⟨List.mem_map_of_mem h, ?_⟩
    rw [Bool.not_eq_true', List.isEmpty_eq_false_iff]
    exact hne
  obtain ⟨i, hi, heq⟩ := List.mem_iff_getElem.mp hmem
  refine ⟨n + i, List.mem_map.mpr ⟨(excerpt window, n + i), ?_, rfl⟩⟩
  rw [List.mk_add_mem_zipIdx_iff_getElem?, List.getElem?_eq_getElem hi, heq]

end Windows
