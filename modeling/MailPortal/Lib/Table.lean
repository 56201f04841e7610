import Mathlib.Data.List.Nodup

/-!
# Tables of Keyed Rows

A table is a list of rows with a key function, read and written the way a relational
store does it: `lookup` finds the row of a key, `update` replaces the row that has the key
of the given one and leaves every other row, and the order of the rows, alone.

The lemmas below say what a reader of the table sees after an update, under the one
assumption a primary key gives, that the keys of the rows are distinct.
-/

namespace Table

variable {κ ρ : Type*} [DecidableEq κ] (key : ρ → κ)
variable {row : ρ} {q : ρ → Bool}
variable {ρ' : Type*} {R : ρ → ρ' → Prop}

/-- The first row with key `k`. -/
def lookup (k : κ) (rows : List ρ) : Option ρ := rows.find? fun r => key r = k

/-- Replace the row that has the key of `row`. -/
def update (row : ρ) (rows : List ρ) : List ρ :=
  rows.map fun r => if key r = key row then row else r

variable {key}

/-! ### Lookup -/

variable {rows : List ρ}

/-- A row that is found is in the table, under the key it was looked up by. -/
theorem lookup_eq_some {k : κ} {r : ρ} (h : lookup key k rows = some r) : r ∈ rows ∧ key r = k := by
  have hk := List.find?_some h
  exact ⟨List.mem_of_find?_eq_some h, by simpa using hk⟩

omit [DecidableEq κ] in
/-- With distinct keys a row is determined by its key. -/
theorem eq_of_key_eq (hnd : (rows.map key).Nodup) {r r' : ρ} (hr : r ∈ rows) (hr' : r' ∈ rows)
    (hk : key r = key r') : r = r' :=
  List.inj_on_of_nodup_map hnd hr hr' hk

/-- With distinct keys every row is found under its own key. -/
theorem lookup_of_mem (hnd : (rows.map key).Nodup) {r : ρ} (hr : r ∈ rows) :
    lookup key (key r) rows = some r := by
  cases h : lookup key (key r) rows with
  | none =>
      have hne := List.find?_eq_none.mp h r hr
      simp at hne
  | some r' =>
      obtain ⟨hmem, hk⟩ := lookup_eq_some h
      rw [eq_of_key_eq hnd hmem hr hk]

/-- A key that no row has is not found. -/
theorem lookup_eq_none {k : κ} (h : ∀ r ∈ rows, key r ≠ k) : lookup key k rows = none :=
  List.find?_eq_none.mpr fun r hr => by simpa using h r hr

variable {p : ρ → Bool}

omit [DecidableEq κ] in
/-- A condition that one row alone meets selects that row. -/
theorem filter_eq_singleton (hnd : (rows.map key).Nodup) (hrow : row ∈ rows) (hp : p row = true)
    (hothers : ∀ r ∈ rows, key r ≠ key row → p r = false) : rows.filter p = [row] := by
  induction rows with
  | nil => cases hrow
  | cons r rows ih =>
      obtain ⟨hhead, htail⟩ := List.nodup_cons.mp hnd
      by_cases hr : key r = key row
      · obtain rfl : r = row := eq_of_key_eq hnd List.mem_cons_self hrow hr
        have hrest : rows.filter p = [] := by
          refine List.filter_eq_nil_iff.mpr fun r' hr' => ?_
          have hne : key r' ≠ key r := fun he => hhead (List.mem_map.mpr ⟨r', hr', he⟩)
          simp [hothers r' (List.mem_cons_of_mem r hr') hne]
        rw [List.filter_cons_of_pos hp, hrest]
      · have hmem : row ∈ rows := by
          rcases List.mem_cons.mp hrow with rfl | hmem
          · exact absurd rfl hr
          · exact hmem
        rw [List.filter_cons_of_neg (by simp [hothers r List.mem_cons_self hr])]
        exact ih htail hmem fun r' hr' => hothers r' (List.mem_cons_of_mem r hr')

/-- A join in which every row has one partner pairs the rows with their partners. -/
theorem forall₂_flatMap {join : ρ → List ρ'} (h : ∀ r ∈ rows, ∃ r', join r = [r'] ∧ R r r') :
    List.Forall₂ R rows (rows.flatMap join) := by
  induction rows with
  | nil => exact .nil
  | cons r rows ih =>
      obtain ⟨r', hjoin, hr⟩ := h r List.mem_cons_self
      rw [List.flatMap_cons, hjoin]
      exact .cons hr (ih fun r' hr' => h r' (List.mem_cons_of_mem r hr'))

/-- In a pairing every row on the right has a partner. -/
theorem exists_partner {rows' : List ρ'} (h : List.Forall₂ R rows rows') {r' : ρ'}
    (hr' : r' ∈ rows') : ∃ r, R r r' := by
  induction h with
  | nil => cases hr'
  | cons hr _ ih =>
      rcases List.mem_cons.mp hr' with rfl | hr'
      · exact ⟨_, hr⟩
      · exact ih hr'

/-! ### Update -/

/-- An update keeps the keys, in their order. -/
@[simp] theorem map_key_update (row : ρ) (rows : List ρ) :
    (update key row rows).map key = rows.map key := by
  rw [update, List.map_map]
  refine List.map_congr_left fun r _ => ?_
  by_cases h : key r = key row <;> simp [h]

/-- A row of the updated table is the new row or an old row with another key. -/
theorem mem_update {r : ρ} (h : r ∈ update key row rows) :
    r = row ∨ r ∈ rows ∧ key r ≠ key row := by
  obtain ⟨r', hr', rfl⟩ := List.mem_map.mp h
  by_cases hk : key r' = key row
  · exact Or.inl (if_pos hk)
  · rw [if_neg hk]
    exact Or.inr ⟨hr', hk⟩

/-- The new row is in the updated table when its key was in the old one. -/
theorem mem_update_self {old : ρ} (hold : old ∈ rows) (hk : key old = key row) :
    row ∈ update key row rows :=
  List.mem_map.mpr ⟨old, hold, if_pos hk⟩

/-- Rows with another key survive an update. -/
theorem mem_update_of_ne {r : ρ} (hr : r ∈ rows) (hk : key r ≠ key row) : r ∈ update key row rows :=
  List.mem_map.mpr ⟨r, hr, if_neg hk⟩

/-- An update whose key no row has changes nothing. -/
theorem update_eq_self (h : ∀ r ∈ rows, key r ≠ key row) : update key row rows = rows := by
  conv_rhs => rw [← List.map_id rows]
  exact List.map_congr_left fun r hr => if_neg (h r hr)

/-- An update commutes with a filter that does not tell the new row from the old one. -/
theorem filter_update (h : ∀ r ∈ rows, key r = key row → p r = p row) :
    (update key row rows).filter p = update key row (rows.filter p) := by
  induction rows with
  | nil => rfl
  | cons r rows ih =>
      have ih' := ih fun r' hr' => h r' (List.mem_cons_of_mem r hr')
      have hhead := h r List.mem_cons_self
      simp only [update, List.map_cons] at ih' ⊢
      by_cases hk : key r = key row
      · have hp : p r = p row := hhead hk
        cases hrow : p row <;> simp [hk, hp, hrow, ih']
      · cases hr : p r <;> simp [hk, hr, ih']

/-- Replacing the one row of a key changes a count by that row alone. -/
theorem countP_update {old : ρ} (hnd : (rows.map key).Nodup) (hold : old ∈ rows)
    (hk : key old = key row) :
    (update key row rows).countP q + (if q old then 1 else 0) =
      rows.countP q + (if q row then 1 else 0) := by
  induction rows with
  | nil => cases hold
  | cons r rows ih =>
      obtain ⟨hhead, htail⟩ := List.nodup_cons.mp hnd
      by_cases hr : r = old
      · subst hr
        have hrest : update key row rows = rows :=
          update_eq_self fun r' hr' he =>
            hhead (List.mem_map.mpr ⟨r', hr', he.trans hk.symm⟩)
        have hcons : update key row (r :: rows) = row :: rows := by
          rw [update, List.map_cons, if_pos hk, ← update, hrest]
        rw [hcons, List.countP_cons, List.countP_cons]
        omega
      · have hmem : old ∈ rows := by
          rcases List.mem_cons.mp hold with h | h
          · exact absurd h.symm hr
          · exact h
        have hne : key r ≠ key row := fun he =>
          hhead (List.mem_map.mpr ⟨old, hmem, hk.trans he.symm⟩)
        have hcons : update key row (r :: rows) = r :: update key row rows := by
          rw [update, List.map_cons, if_neg hne, ← update]
        have ih' := ih htail hmem
        rw [hcons, List.countP_cons, List.countP_cons]
        omega

/-! ### Updates and deletions by a condition -/

/-- Change the rows that meet a condition. -/
def updateWhere (p : ρ → Bool) (f : ρ → ρ) (rows : List ρ) : List ρ :=
  rows.map fun r => if p r then f r else r

/-- Delete the rows that meet a condition. -/
def deleteWhere (p : ρ → Bool) (rows : List ρ) : List ρ := rows.filter fun r => !p r

variable {p : ρ → Bool} {f : ρ → ρ} {rows : List ρ} {r : ρ}

/-- A row after an update by a condition is a changed row or one that did not meet it. -/
theorem mem_updateWhere :
    r ∈ updateWhere p f rows ↔ (∃ r₀ ∈ rows, p r₀ = true ∧ r = f r₀) ∨ r ∈ rows ∧ p r = false := by
  constructor
  · intro h
    obtain ⟨r₀, hr₀, rfl⟩ := List.mem_map.mp h
    cases hp : p r₀ with
    | true => exact .inl ⟨r₀, hr₀, hp, by simp⟩
    | false => exact .inr ⟨by simpa using hr₀, by simpa using hp⟩
  · rintro (⟨r₀, hr₀, hp, rfl⟩ | ⟨hr, hp⟩)
    · exact List.mem_map.mpr ⟨r₀, hr₀, if_pos hp⟩
    · exact List.mem_map.mpr ⟨r, hr, by simp [hp]⟩

@[simp] theorem mem_deleteWhere : r ∈ deleteWhere p rows ↔ r ∈ rows ∧ p r = false := by
  simp [deleteWhere]

/-- An update whose condition no row meets changes nothing. -/
theorem updateWhere_eq_self (h : ∀ r ∈ rows, p r = false) : updateWhere p f rows = rows := by
  conv_rhs => rw [← List.map_id rows]
  exact List.map_congr_left fun r hr => by simp [h r hr]

/-- A condition that does not tell the changed rows from the old ones counts as many of them. -/
theorem countP_updateWhere (h : ∀ r, q (f r) = q r) :
    (updateWhere p f rows).countP q = rows.countP q := by
  rw [updateWhere, List.countP_map]
  refine List.countP_congr fun r _ => ?_
  by_cases hp : p r <;> simp [hp, h]

/-- An update that makes no more rows meet a condition. -/
theorem countP_updateWhere_le (h : ∀ r, p r = true → q (f r) = true → q r = true) :
    (updateWhere p f rows).countP q ≤ rows.countP q := by
  rw [updateWhere, List.countP_map]
  refine List.countP_mono_left fun r _ hq => ?_
  rw [Function.comp_apply] at hq
  cases hp : p r with
  | true =>
      rw [if_pos hp] at hq
      exact h r hp hq
  | false =>
      rw [if_neg (by rw [hp]; exact Bool.false_ne_true)] at hq
      exact hq

omit [DecidableEq κ] in
/-- An update that keeps the key of every row keeps the keys, in their order. -/
theorem map_key_updateWhere (h : ∀ r, key (f r) = key r) :
    (updateWhere p f rows).map key = rows.map key := by
  rw [updateWhere, List.map_map]
  refine List.map_congr_left fun r _ => ?_
  by_cases hp : p r <;> simp [hp, h]

omit [DecidableEq κ] in
/-- Deletions keep the keys distinct. -/
theorem nodup_deleteWhere (h : (rows.map key).Nodup) : ((deleteWhere p rows).map key).Nodup :=
  h.sublist (List.filter_sublist.map key)

/-! ### A condition on one key -/

omit [DecidableEq κ] in
/-- A condition that only rows of one key meet, and a row of that key does, counts one. -/
theorem countP_of_key (hnd : (rows.map key).Nodup) (hrow : row ∈ rows) (hp : p row = true)
    (hkey : ∀ r, p r = true → key r = key row) : rows.countP p = 1 := by
  have hfilter : rows.filter p = [row] := by
    refine filter_eq_singleton hnd hrow hp fun r _ hne => ?_
    rw [← Bool.not_eq_true]
    exact fun hr => hne (hkey r hr)
  rw [List.countP_eq_length_filter, hfilter, List.length_singleton]

omit [DecidableEq κ] in
/-- A condition whose rows all have one key counts one at most. -/
theorem countP_le_one_of_key (hnd : (rows.map key).Nodup)
    (hkey : ∀ r ∈ rows, ∀ r' ∈ rows, p r = true → p r' = true → key r = key r') :
    rows.countP p ≤ 1 := by
  induction rows with
  | nil => exact Nat.zero_le 1
  | cons r rows ih =>
      obtain ⟨hhead, htail⟩ := List.nodup_cons.mp hnd
      rw [List.countP_cons]
      cases hp : p r with
      | true =>
          have hnone : rows.countP p = 0 := by
            refine List.countP_eq_zero.mpr fun r' hr' hp' => hhead ?_
            rw [hkey r List.mem_cons_self r' (List.mem_cons_of_mem r hr') hp hp']
            exact List.mem_map_of_mem hr'
          simp [hnone]
      | false =>
          rw [if_neg Bool.false_ne_true, Nat.add_zero]
          exact ih htail fun a ha b hb =>
            hkey a (List.mem_cons_of_mem r ha) b (List.mem_cons_of_mem r hb)

/-- An update by such a condition is the update of the key. -/
theorem updateWhere_of_key (hnd : (rows.map key).Nodup) (hrow : row ∈ rows) (hp : p row = true)
    (hkey : ∀ r, p r = true → key r = key row) :
    updateWhere p f rows = updateWhere (fun r => decide (key r = key row)) f rows := by
  refine List.map_congr_left fun r hr => ?_
  have hsame : p r = decide (key r = key row) := by
    cases hpr : p r with
    | true => exact (decide_eq_true (hkey r hpr)).symm
    | false =>
        refine (decide_eq_false fun he => ?_).symm
        rw [eq_of_key_eq hnd hr hrow he, hp] at hpr
        cases hpr
  rw [hsame]

/-! ### Lookup after a write -/

/-- A lookup after an update finds the new row where it found a row with its key. -/
theorem lookup_update (k : κ) (row : ρ) (rows : List ρ) :
    lookup key k (update key row rows) =
      if key row = k then (lookup key k rows).map fun _ => row else lookup key k rows := by
  induction rows with
  | nil => simp [lookup, update]
  | cons r rows ih =>
      simp only [lookup, update, List.map_cons, List.find?_cons] at ih ⊢
      by_cases hr : key r = key row
      · by_cases hk : key row = k
        · simp [hr, hk]
        · simpa [hr, hk] using ih
      · by_cases hk : key r = k
        · have hne : key row ≠ k := fun h => hr (hk.trans h.symm)
          simp [hk, hne, Ne.symm hne]
        · simpa [hr, hk] using ih

/-- A lookup after an update by a condition that keeps the keys finds the row, changed or not. -/
theorem lookup_updateWhere {f : ρ → ρ} (hf : ∀ r, key (f r) = key r) (k : κ) (rows : List ρ) :
    lookup key k (updateWhere p f rows) =
      (lookup key k rows).map fun r => if p r then f r else r := by
  induction rows with
  | nil => rfl
  | cons r rows ih =>
      have hhead : key (if p r then f r else r) = key r := by
        by_cases hp : p r <;> simp [hp, hf]
      simp only [lookup, updateWhere, List.map_cons, List.find?_cons, hhead] at ih ⊢
      by_cases hk : key r = k
      · simp [hk]
      · simpa [hk] using ih

theorem lookup_append (k : κ) (rows rows' : List ρ) :
    lookup key k (rows ++ rows') = (lookup key k rows).or (lookup key k rows') :=
  List.find?_append

/-- With distinct keys a deletion hides the row of a key just if it deletes that row. -/
theorem lookup_deleteWhere (hnd : (rows.map key).Nodup) (k : κ) :
    lookup key k (deleteWhere p rows) = (lookup key k rows).filter fun r => !p r := by
  cases h : lookup key k rows with
  | none =>
      refine lookup_eq_none fun r hr he => ?_
      have hfound := lookup_of_mem hnd (mem_deleteWhere.mp hr).1
      rw [he, h] at hfound
      cases hfound
  | some row =>
      obtain ⟨hrow, rfl⟩ := lookup_eq_some h
      cases hp : p row with
      | false =>
          rw [lookup_of_mem (nodup_deleteWhere hnd) (mem_deleteWhere.mpr ⟨hrow, hp⟩)]
          simp [Option.filter, hp]
      | true =>
          simp only [Option.filter_some, hp, Bool.not_true, Bool.false_eq_true, if_false]
          refine lookup_eq_none fun r hr he => ?_
          obtain ⟨hr, hpr⟩ := mem_deleteWhere.mp hr
          rw [eq_of_key_eq hnd hr hrow he, hp] at hpr
          cases hpr

/-! ### Insert or update -/

variable (key) in
/-- Insert a row under the key `k`, or put one in the place of the row that has the key. -/
def upsert (k : κ) (f : Option ρ → ρ) (rows : List ρ) : List ρ :=
  match lookup key k rows with
  | none => rows ++ [f none]
  | some old => update key (f (some old)) rows

variable {k : κ} {g : Option ρ → ρ}

/-- After an insert or update the key has the new row, and every other key what it had. -/
theorem lookup_upsert (hkey : ∀ o, key (g o) = k) (k' : κ) (rows : List ρ) :
    lookup key k' (upsert key k g rows) =
      if k = k' then some (g (lookup key k rows)) else lookup key k' rows := by
  rw [upsert]
  cases h : lookup key k rows with
  | none =>
      have hlast : lookup key k' [g none] = if k = k' then some (g none) else none := by
        by_cases hk : k = k' <;> simp [lookup, hkey, hk]
      simp only [lookup_append, hlast]
      by_cases hk : k = k'
      · subst hk
        simp [h]
      · simp [hk]
  | some old =>
      simp only [lookup_update, hkey]
      by_cases hk : k = k'
      · subst hk
        simp [h]
      · simp [hk]

/-- A row after an insert or update is the new row or an old one. -/
theorem mem_upsert {r : ρ} (h : r ∈ upsert key k g rows) :
    r = g (lookup key k rows) ∨ r ∈ rows := by
  rw [upsert] at h
  cases hold : lookup key k rows with
  | none =>
      simp only [hold] at h
      rcases List.mem_append.mp h with hr | hr
      · exact .inr hr
      · exact .inl (List.mem_singleton.mp hr)
  | some old =>
      simp only [hold] at h
      rcases mem_update h with hr | ⟨hr, -⟩
      · exact .inl hr
      · exact .inr hr

theorem nodup_upsert (hkey : ∀ o, key (g o) = k) (hnd : (rows.map key).Nodup) :
    ((upsert key k g rows).map key).Nodup := by
  rw [upsert]
  cases h : lookup key k rows with
  | none =>
      simp only [List.map_append, List.map_cons, List.map_nil, hkey]
      refine List.nodup_append.mpr ⟨hnd, List.nodup_singleton k, fun a ha b hb he => ?_⟩
      obtain ⟨r, hr, hrk⟩ := List.mem_map.mp ha
      have hnone := List.find?_eq_none.mp h r hr
      rw [List.mem_singleton.mp hb] at he
      simp [hrk, he] at hnone
  | some old =>
      simp only [map_key_update]
      exact hnd

end Table
