import Mathlib.Order.MinMax

/-!
# SQL Conditions

The truth values of SQL, with `none` for NULL: a comparison with NULL is NULL, and a row is
selected only on true. Then the aggregate `MIN`, which passes over NULL.

Main results:

* `holds_anyOf_cons`, `holds_allOf_cons` : to select a row, NULL counts as false in `OR` and `AND`.
* `minimum_eq_some` : `MIN` is the least value, and NULL when there is none.
-/

namespace Sql

/-- A truth value, `none` for NULL. -/
abbrev Truth := Option Bool

variable {ts : List Truth} {t : Truth}

/-- A row is selected on true only. -/
def holds (t : Truth) : Bool := t = some true

section Comparisons

variable {α : Type}

/-- `a = b` -/
def eq [DecidableEq α] (a b : Option α) : Truth := a.bind fun x => b.map fun y => decide (x = y)

/-- `a <> b` -/
def ne [DecidableEq α] (a b : Option α) : Truth := a.bind fun x => b.map fun y => decide (x ≠ y)

/-- `a <= b` -/
def le [LE α] [DecidableLE α] (a b : Option α) : Truth :=
  a.bind fun x => b.map fun y => decide (x ≤ y)

/-- `a IS NULL` -/
def isNull (a : Option α) : Truth := some a.isNone

end Comparisons

/-- `OR` -/
def anyOf (ts : List Truth) : Truth :=
  if some true ∈ ts then some true else if none ∈ ts then none else some false

/-- `AND` -/
def allOf (ts : List Truth) : Truth :=
  if some false ∈ ts then some false else if none ∈ ts then none else some true

/-- `NOT` -/
def not (t : Truth) : Truth := t.map Bool.not

/-- `EXISTS`, and a join with a table. -/
def existsRow {R : Type} (rows : List R) (condition : R → Truth) : Truth :=
  some (rows.any fun row => holds (condition row))

/-- `CASE WHEN ... THEN ... ELSE ... END` -/
def caseWhen {α : Type} : List (Truth × α) → α → α
  | [], otherwise => otherwise
  | (condition, value) :: cases, otherwise =>
      if holds condition then value else caseWhen cases otherwise

/-- `MIN` -/
def minimum {α : Type} [Min α] (values : List (Option α)) : Option α := (values.filterMap id).min?

section Selection

variable {α : Type}

@[simp] theorem holds_eq_some [DecidableEq α] {x y : α} :
    holds (eq (some x) (some y)) = decide (x = y) := by
  simp [holds, eq]

theorem holds_eq [DecidableEq α] {a b : Option α} :
    holds (eq a b) = true ↔ ∃ x, a = some x ∧ b = some x := by
  cases a <;> cases b <;> simp [holds, eq, eq_comm]

theorem holds_ne [DecidableEq α] {a b : Option α} :
    holds (ne a b) = true ↔ ∃ x y, a = some x ∧ b = some y ∧ x ≠ y := by
  cases a <;> cases b <;> simp [holds, ne]

theorem holds_le [LE α] [DecidableLE α] {a b : Option α} :
    holds (le a b) = true ↔ ∃ x y, a = some x ∧ b = some y ∧ x ≤ y := by
  cases a <;> cases b <;> simp [holds, le]

@[simp] theorem holds_isNull {a : Option α} : holds (isNull a) = true ↔ a = none := by
  cases a <;> simp [holds, isNull]

theorem holds_anyOf : holds (anyOf ts) = true ↔ ∃ t ∈ ts, holds t = true := by
  simp only [anyOf, holds, decide_eq_true_eq, exists_eq_right]
  split
  · simp_all
  · split <;> simp_all

theorem holds_allOf : holds (allOf ts) = true ↔ ∀ t ∈ ts, holds t = true := by
  have hother : ∀ t : Truth, t ≠ some false → t ≠ none → t = some true := by
    rintro (_ | _ | _) hfalse hnull
    · exact absurd rfl hnull
    · exact absurd rfl hfalse
    · rfl
  simp only [allOf, holds, decide_eq_true_eq]
  split
  · rename_i hfalse
    exact ⟨nofun, fun h => absurd (h _ hfalse) (by decide)⟩
  split
  · rename_i hnull
    exact ⟨nofun, fun h => absurd (h _ hnull) (by decide)⟩
  · rename_i hfalse hnull
    refine ⟨fun _ t ht => hother t ?_ ?_, fun _ => rfl⟩
    · rintro rfl
      exact hfalse ht
    · rintro rfl
      exact hnull ht

/-- In `OR` NULL counts as false. -/
@[simp] theorem holds_anyOf_cons : holds (anyOf (t :: ts)) = (holds t || holds (anyOf ts)) := by
  rw [Bool.eq_iff_iff, Bool.or_eq_true, holds_anyOf, holds_anyOf]
  simp only [List.mem_cons, exists_eq_or_imp]

@[simp] theorem holds_anyOf_nil : holds (anyOf []) = false := rfl

/-- In `AND` NULL counts as false. -/
@[simp] theorem holds_allOf_cons : holds (allOf (t :: ts)) = (holds t && holds (allOf ts)) := by
  rw [Bool.eq_iff_iff, Bool.and_eq_true, holds_allOf, holds_allOf, List.forall_mem_cons]

@[simp] theorem holds_allOf_nil : holds (allOf []) = true := rfl

@[simp] theorem holds_existsRow {R : Type} {rows : List R} {condition : R → Truth} :
    holds (existsRow rows condition) = true ↔ ∃ row ∈ rows, holds (condition row) = true := by
  simp [existsRow, holds]

/-- `NOT EXISTS` -/
@[simp] theorem holds_not_existsRow {R : Type} {rows : List R} {condition : R → Truth} :
    holds (not (existsRow rows condition)) = true ↔
      ∀ row ∈ rows, holds (condition row) = false := by
  simp [existsRow, not, holds]

end Selection

/-- A `CASE` with one branch for each value takes the first whose condition holds. -/
theorem caseWhen_map_append {ι α : Type} (values : List ι) (condition : ι → Truth) (result : ι → α)
    (rest : List (Truth × α)) (otherwise : α) :
    caseWhen (values.map (fun i => (condition i, result i)) ++ rest) otherwise =
      match values.find? fun i => holds (condition i) with
      | some i => result i
      | none => caseWhen rest otherwise := by
  induction values with
  | nil => rfl
  | cons i values ih =>
      rw [List.map_cons, List.cons_append, caseWhen, List.find?_cons]
      cases holds (condition i) with
      | true => rfl
      | false => simpa using ih

/-- **`MIN` is the least value.** -/
theorem minimum_eq_some {α : Type} [LinearOrder α] {values : List (Option α)} {x : α}
    (h : minimum values = some x) : some x ∈ values ∧ ∀ y, some y ∈ values → x ≤ y := by
  have : Std.LawfulOrderMin α :=
    .of_le_min_iff (fun _ _ _ => le_min_iff) fun a b => (min_choice a b)
  have hmem : ∀ y, y ∈ values.filterMap id ↔ some y ∈ values := by
    intro y
    simp
  obtain ⟨hx, hle⟩ := List.min?_eq_some_iff.mp h
  exact ⟨(hmem x).mp hx, fun y hy => hle y ((hmem y).mpr hy)⟩

theorem minimum_eq_none {α : Type} [Min α] {values : List (Option α)} :
    minimum values = none ↔ ∀ x, some x ∉ values := by
  rw [minimum, List.min?_eq_none_iff, List.eq_nil_iff_forall_not_mem]
  simp

end Sql
