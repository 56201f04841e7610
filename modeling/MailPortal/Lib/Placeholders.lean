import MailPortal.Lib.Failure

/-!
# Numbered Placeholders

A statement is built together with the list of its parameters: each value that is added takes the
next number, and the statement keeps the number. What the statement means is what it reads when
every number is replaced by the value that is bound to it.

`Builds` says that a builder makes a statement with a given meaning, whatever was added before and
whatever is added behind. The rules follow the ways in which builders are put together.
-/

namespace Placeholders

open Failure

variable {V ε : Type} {α β γ : Type}
variable {meant : β}

/-- A builder reads and extends the parameters, and may fail. -/
abbrev Build (V ε α : Type) := StateT (List V) (Except ε) α

/-- Bind one more value, and take its number. -/
def add (value : V) : Build V ε ℕ := fun values => .ok (values.length + 1, values ++ [value])

/-- What may fail without a parameter. -/
def check (result : Except ε α) : Build V ε α := fun values => result.map fun a => (a, values)

/-- The value under a number, counted from one. -/
def valueAt (values : List V) : ℕ → Option V
  | 0 => none
  | n + 1 => values[n]?

theorem valueAt_add (values more : List V) (value : V) :
    valueAt (values ++ [value] ++ more) (values.length + 1) = some value := by
  rw [valueAt, List.append_assoc, List.getElem?_append_right (Nat.le_refl _), Nat.sub_self]
  rfl

/-- Where `known` is true of the bound parameters, what is built reads as `meant` under them,
whatever was added before and is added behind. -/
def BuildsWhen (known : (ℕ → Option V) → Prop) (read : (ℕ → Option V) → α → Option β)
    (builder : Build V ε α) (meant : β) : Prop :=
  ∀ values a values', builder values = .ok (a, values') → ∃ added, values' = values ++ added ∧
    ∀ more, known (valueAt (values' ++ more)) → read (valueAt (values' ++ more)) a = some meant

/-- What is built reads as `meant`. -/
abbrev Builds (read : (ℕ → Option V) → α → Option β) (builder : Build V ε α) (meant : β) : Prop :=
  BuildsWhen (fun _ => True) read builder meant

variable {known : (ℕ → Option V) → Prop} {read : (ℕ → Option V) → α → Option β}

theorem build_bind_eq_ok {builder : Build V ε α} {next : α → Build V ε γ} {values values' : List V}
    {c : γ} : (builder >>= next) values = .ok (c, values') ↔
      ∃ a between, builder values = .ok (a, between) ∧ next a between = .ok (c, values') := by
  refine bind_eq_ok.trans ⟨?_, ?_⟩
  · rintro ⟨⟨a, between⟩, h, hnext⟩
    exact ⟨a, between, h, hnext⟩
  · rintro ⟨a, between, h, hnext⟩
    exact ⟨(a, between), h, hnext⟩

/-- A bound value reads as itself. -/
theorem builds_add (value : V) :
    Builds (fun bound n => bound n) (add value : Build V ε ℕ) value := by
  intro values a values' h
  cases h
  exact ⟨[value], rfl, fun more _ => valueAt_add values more value⟩

/-- What reads as it should from what is known. -/
theorem builds_pure {a : α} (h : ∀ bound, known bound → read bound a = some meant) :
    BuildsWhen known read (pure a : Build V ε α) meant := by
  intro values a' values' heq
  cases heq
  exact ⟨[], (List.append_nil _).symm, fun more => h _⟩

/-- A check that has to succeed before the rest. -/
theorem builds_check {result : Except ε γ} {next : γ → Build V ε α}
    (h : ∀ c, result = .ok c → BuildsWhen known read (next c) meant) :
    BuildsWhen known read (check result >>= next) meant := by
  intro values a values' heq
  obtain ⟨c, between, hcheck, hnext⟩ := build_bind_eq_ok.mp heq
  cases result with
  | error e => cases hcheck
  | ok c' =>
      obtain ⟨rfl, rfl⟩ := Prod.mk.inj (Except.ok.inj hcheck)
      exact h c' rfl values a values' hnext

/-- **One part after the other**: the rest may use how the first part reads. -/
theorem builds_bind {δ : Type} {readFirst : (ℕ → Option V) → α → Option β}
    {read : (ℕ → Option V) → γ → Option δ} {first : Build V ε α} {next : α → Build V ε γ}
    {meantFirst : β} {meant : δ} (hfirst : Builds readFirst first meantFirst)
    (hnext : ∀ a, BuildsWhen (fun bound => known bound ∧ readFirst bound a = some meantFirst) read
      (next a) meant) : BuildsWhen known read (first >>= next) meant := by
  intro values c values' h
  obtain ⟨a, between, ha, h⟩ := build_bind_eq_ok.mp h
  obtain ⟨added, rfl, hmeant⟩ := hfirst _ _ _ ha
  obtain ⟨added', rfl, hread⟩ := hnext a _ _ _ h
  refine ⟨added ++ added', List.append_assoc .., fun more hknown => hread more ⟨hknown, ?_⟩⟩
  rw [List.append_assoc (values ++ added)]
  exact hmeant _ trivial

/-- Parts one by one. -/
theorem builds_mapM {ι : Type} {build : ι → Build V ε α} {meant : ι → β} {items : List ι}
    (h : ∀ item ∈ items, Builds read (build item) (meant item)) :
    Builds (fun bound parts => parts.mapM (read bound)) (items.mapM build) (items.map meant) := by
  induction items with
  | nil =>
      rw [List.mapM_nil]
      exact builds_pure fun _ _ => rfl
  | cons item items ih =>
      rw [List.mapM_cons]
      refine builds_bind (h item List.mem_cons_self) fun a => builds_bind
        (ih fun item' hmem => h item' (List.mem_cons_of_mem item hmem)) fun parts =>
          builds_pure fun bound hknown => ?_
      rw [List.mapM_cons, hknown.1.2, hknown.2]
      rfl

/-- What a whole run has built, under its own parameters. -/
theorem Builds.run {builder : Build V ε α} (h : Builds read builder meant) {a : α} {values : List V}
    (hrun : builder [] = .ok (a, values)) : read (valueAt values) a = some meant := by
  obtain ⟨added, rfl, hread⟩ := h [] a values hrun
  have h := hread [] trivial
  rwa [List.append_nil] at h

end Placeholders
