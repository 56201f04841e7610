import MailPortal.Lib.Failure

/-!
# Loops that may Fail

`while` over a state, with a body that may fail. The loop is given as many passes as its measure
allows; one that would go on is `stuck`, an error that its body has no other use for.

Main results:

* `whileLoop_ok` : what the body preserves holds at the end, and the condition does not.
* `whileLoop_error` : a loop whose measure falls ends with an error of its body only.
-/

namespace Loop

open Failure

variable {ε σ : Type}

/-- `while (running s) s = body s` -/
def whileLoop (stuck : ε) (running : σ → Bool) (body : σ → Except ε σ) : ℕ → σ → Except ε σ
  | 0, s => if running s then .error stuck else .ok s
  | passes + 1, s => if running s then body s >>= whileLoop stuck running body passes else .ok s

variable {stuck : ε} {running : σ → Bool} {body : σ → Except ε σ} {passes : ℕ} {s s' : σ}

theorem whileLoop_done (h : running s = false) : whileLoop stuck running body passes s = .ok s := by
  cases passes <;> exact if_neg (by rw [h]; exact Bool.noConfusion)

theorem whileLoop_succ (h : running s = true) : whileLoop stuck running body (passes + 1) s =
    body s >>= whileLoop stuck running body passes := if_pos h

theorem whileLoop_step (h : running s = true) (hbody : body s = .ok s') :
    whileLoop stuck running body (passes + 1) s = whileLoop stuck running body passes s' := by
  rw [whileLoop_succ h, hbody, ok_bind]

/-- A body that fails ends the loop. -/
theorem whileLoop_fail {e : ε} (h : running s = true) (hbody : body s = .error e) :
    whileLoop stuck running body (passes + 1) s = .error e := by
  rw [whileLoop_succ h, hbody, error_bind]

/-- A loop that returns is at its end, or goes on after a pass. -/
theorem whileLoop_eq_ok (h : whileLoop stuck running body passes s = .ok s') :
    (running s = false ∧ s' = s) ∨ ∃ passes' s₁, passes = passes' + 1 ∧ running s = true ∧
      body s = .ok s₁ ∧ whileLoop stuck running body passes' s₁ = .ok s' := by
  cases hrun : running s with
  | false =>
    rw [whileLoop_done hrun] at h
    exact Or.inl ⟨rfl, (Except.ok.inj h).symm⟩
  | true =>
    cases passes with
    | zero =>
      rw [whileLoop, if_pos hrun] at h
      exact absurd h nofun
    | succ passes =>
      rw [whileLoop_succ hrun] at h
      obtain ⟨s₁, hbody, hrest⟩ := bind_eq_ok.mp h
      exact Or.inr ⟨passes, s₁, rfl, rfl, hbody, hrest⟩

/-- What each pass preserves holds at the end, when the condition has become false. -/
theorem whileLoop_ok (Inv : σ → Prop)
    (hbody : ∀ s s', Inv s → running s = true → body s = .ok s' → Inv s')
    (hs : Inv s) (h : whileLoop stuck running body passes s = .ok s') :
    Inv s' ∧ running s' = false := by
  induction passes generalizing s with
  | zero =>
    obtain ⟨hrun, rfl⟩ | ⟨_, _, hpasses, -⟩ := whileLoop_eq_ok h
    · exact ⟨hs, hrun⟩
    · exact absurd hpasses (Nat.succ_ne_zero _).symm
  | succ passes ih =>
    obtain ⟨hrun, rfl⟩ | ⟨_, s₁, hpasses, hrun, hpass, hrest⟩ := whileLoop_eq_ok h
    · exact ⟨hs, hrun⟩
    · cases hpasses
      exact ih (hbody s s₁ hs hrun hpass) hrest

/-- A loop whose measure falls with every pass ends with an error of its body only. -/
theorem whileLoop_error (Inv : σ → Prop) {Allowed : ε → Prop} (measure : σ → ℕ)
    (hbody : ∀ s s', Inv s → running s = true → body s = .ok s' → Inv s' ∧ measure s' < measure s)
    (herror : ∀ s e, Inv s → running s = true → body s = .error e → Allowed e)
    (hs : Inv s) (hpasses : measure s < passes) {e : ε}
    (h : whileLoop stuck running body passes s = .error e) : Allowed e := by
  induction passes generalizing s with
  | zero => exact absurd hpasses (Nat.not_lt_zero _)
  | succ passes ih =>
    cases hrun : running s with
    | false =>
      rw [whileLoop_done hrun] at h
      exact absurd h nofun
    | true =>
      rw [whileLoop_succ hrun] at h
      cases hpass : body s with
      | error e' =>
        rw [hpass, error_bind] at h
        exact Except.error.inj h ▸ herror s e' hs hrun hpass
      | ok s₁ =>
        rw [hpass, ok_bind] at h
        obtain ⟨hs₁, hfall⟩ := hbody s s₁ hs hrun hpass
        exact ih hs₁ (by omega) h

end Loop
