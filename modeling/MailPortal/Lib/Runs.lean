import Mathlib.Data.List.Induction
import Mathlib.Data.List.Nodup

/-!
# Runs of a Step Function

A run feeds a list of events to a deterministic step function. The rules below carry an
invariant from one step to a whole run: `run_invariant` for steps that preserve it
unconditionally, `run_invariant_of_along` for runs whose steps all meet a condition, and
`run_invariant_of_fresh` for systems whose events draw names that must be new, where a step may
assume that the names of its event were not drawn before.
-/

namespace Runs

variable {σ ε ι : Type*} (step : σ → ε → σ)

/-- The state after a list of events. -/
def run (s : σ) (events : List ε) : σ := events.foldl step s

@[simp] theorem run_nil (s : σ) : run step s [] = s := rfl

@[simp] theorem run_cons (s : σ) (e : ε) (events : List ε) :
    run step s (e :: events) = run step (step s e) events := rfl

/-- A run of two lists is a run of the first and then of the second. -/
theorem run_append (s : σ) (before after : List ε) :
    run step s (before ++ after) = run step (run step s before) after :=
  List.foldl_append

variable {step} {s : σ}

/-- An invariant that every step preserves holds after every run. -/
theorem run_invariant {Inv : σ → Prop} (hstep : ∀ s e, Inv s → Inv (step s e)) (h : Inv s)
    (events : List ε) : Inv (run step s events) := by
  induction events generalizing s with
  | nil => exact h
  | cons e events ih => exact ih (hstep s e h)

/-- Every step of a run meets a condition in the state that it starts in. -/
def Along (step : σ → ε → σ) (P : σ → ε → Prop) (s : σ) (events : List ε) : Prop :=
  ∀ before e after, events = before ++ e :: after → P (run step s before) e

variable {P : σ → ε → Prop}

theorem Along.cons {e : ε} {events : List ε}
    (h : Along step P s (e :: events)) : P s e ∧ Along step P (step s e) events :=
  ⟨h [] e events rfl, fun before e' after heq => h (e :: before) e' after (by rw [heq]; rfl)⟩

theorem along_nil : Along step P s [] := by
  intro before e after heq
  cases before <;> cases heq

theorem along_cons {e : ε} {events : List ε} :
    Along step P s (e :: events) ↔ P s e ∧ Along step P (step s e) events := by
  refine ⟨Along.cons, fun ⟨he, hrest⟩ before e' after heq => ?_⟩
  cases before with
  | nil =>
      cases heq
      exact he
  | cons first before =>
      obtain ⟨rfl, hevents⟩ := List.cons.inj (heq : _ = first :: (before ++ e' :: after))
      exact hrest before e' after hevents

instance decidableAlong {P : σ → ε → Prop} [∀ s e, Decidable (P s e)] (s : σ) :
    (events : List ε) → Decidable (Along step P s events)
  | [] => isTrue along_nil
  | e :: events =>
      haveI := decidableAlong (P := P) (step s e) events
      decidable_of_iff _ (along_cons (P := P)).symm

theorem Along.of_append {before after : List ε}
    (h : Along step P s (before ++ after)) : Along step P s before :=
  fun first e rest heq => h first e (rest ++ after) (by rw [heq, List.append_assoc]; rfl)

theorem Along.concat {before : List ε} {e : ε} (h : Along step P s before)
    (he : P (run step s before) e) : Along step P s (before ++ [e]) := by
  intro first e' rest heq
  rcases List.eq_nil_or_concat rest with rfl | ⟨rest, last, rfl⟩
  · obtain ⟨rfl, hlast⟩ := List.append_inj' heq rfl
    rw [← (List.cons.inj hlast).1]
    exact he
  · rw [List.concat_eq_append, ← List.cons_append, ← List.append_assoc] at heq
    exact h first e' rest (List.append_inj' heq rfl).1

/-- An invariant that the steps of a condition preserve holds after every run of such steps. -/
theorem run_invariant_of_along {Inv : σ → Prop}
    (hstep : ∀ s e, Inv s → P s e → Inv (step s e)) (h : Inv s) (events : List ε)
    (halong : Along step P s events) : Inv (run step s events) := by
  induction events generalizing s with
  | nil => exact h
  | cons e events ih => exact ih (hstep s e h halong.cons.1) halong.cons.2

/-- **The fresh-name rule.** `names` lists the names an event draws and `drawn` the names
a state has seen. When no name is drawn twice along a run, every step may assume that the
names of its event are new. -/
theorem run_invariant_of_fresh {Inv : σ → Prop} {names : ε → List ι} {drawn : σ → List ι}
    (hdrawn : ∀ s e, drawn (step s e) = drawn s ++ names e)
    (hstep : ∀ s e, Inv s → (drawn s ++ names e).Nodup → Inv (step s e)) (h : Inv s)
    (events : List ε) (hfresh : (drawn s ++ events.flatMap names).Nodup) :
    Inv (run step s events) := by
  induction events generalizing s with
  | nil => exact h
  | cons e events ih =>
      rw [List.flatMap_cons, ← List.append_assoc] at hfresh
      refine ih (hstep s e h (List.Nodup.of_append_left hfresh)) ?_
      rwa [hdrawn]

end Runs
