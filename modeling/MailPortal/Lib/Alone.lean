import MailPortal.Lib.Concurrent

/-!
# A Program Alone

A program that nobody disturbs ends, since it is finite. `Ends` says that it cannot get stuck, and
in which states it ends. What the program keeps to among others, it keeps to alone; what no
operation that it calls can do, it does not do.

Main results:

* `Keeps.ends` : the steps of a program alone are those of the rules.
* `Calls.ends` : what no called operation changes, the program does not change.
* `Runs.turns` : a run of a program alone is one of a pool.
-/

namespace Concurrent.Prog

universe u

variable {Op : Type} {Answer : Op → Type} {σ : Type u} {α β : Type}
variable {p : Prog Op Answer α} {s s' s'' : σ} {f : α → OptionT (Prog Op Answer) β} {a : α}
variable {Q' : Option β → σ → Prop} {b : Option β} {starts : σ → Prog Op Answer α → Prop}

/-- **Every run of the program alone ends**, in a state with `Q`. -/
def Ends (exec : (op : Op) → σ → Answer op → σ → Prop) (Q : α → σ → Prop) :
    Prog Op Answer α → σ → Prop
  | .done a, s => Q a s
  | .call op next, s => (∃ r s', exec op s r s') ∧
      ∀ r s', exec op s r s' → Ends exec Q (next r) s'

/-- Whatever the answers are, the operations that the program calls satisfy `P`. -/
def Calls (P : Op → Prop) : Prog Op Answer α → Prop
  | .done _ => True
  | .call op next => P op ∧ ∀ r, Calls P (next r)

variable {exec : (op : Op) → σ → Answer op → σ → Prop} {Q : α → σ → Prop}

/-! ### How programs end -/

theorem Ends.mono {Q' : α → σ → Prop} (h : p.Ends exec Q s) (hQ : ∀ a s', Q a s' → Q' a s') :
    p.Ends exec Q' s := by
  induction p generalizing s with
  | done a => exact hQ a s h
  | call op next ih => exact ⟨h.1, fun r s' hexec => ih r (h.2 r s' hexec)⟩

theorem Ends.and {Q' : α → σ → Prop} (h : p.Ends exec Q s) (h' : p.Ends exec Q' s) :
    p.Ends exec (fun a s' => Q a s' ∧ Q' a s') s := by
  induction p generalizing s with
  | done a => exact ⟨h, h'⟩
  | call op next ih => exact ⟨h.1, fun r s' hexec => ih r (h.2 r s' hexec) (h'.2 r s' hexec)⟩

/-- **The rule of sequence.** -/
theorem Ends.bind {f : α → Prog Op Answer β} {Q' : β → σ → Prop}
    (h : p.Ends exec (fun a s' => (f a).Ends exec Q' s') s) : (p.bind f).Ends exec Q' s := by
  induction p generalizing s with
  | done a => exact h
  | call op next ih => exact ⟨h.1, fun r s' hexec => ih r (h.2 r s' hexec)⟩

/-- What follows a program that returns. -/
theorem Ends.bindReturned {p : OptionT (Prog Op Answer) α}
    (h : p.run.Ends exec (fun o s' => ∃ a, o = some a ∧ (f a).run.Ends exec Q' s') s) :
    (p >>= f).run.Ends exec Q' s := by
  rw [OptionT.run_bind]
  refine Ends.bind (h.mono fun o s' ho => ?_)
  obtain ⟨a, rfl, ha⟩ := ho
  exact ha

theorem Ends.bindLift (h : p.Ends exec (fun a s' => (f a).run.Ends exec Q' s') s) :
    (OptionT.lift p >>= f).run.Ends exec Q' s := by
  exact Ends.bindReturned (Ends.bind (h.mono fun a s' ha => ⟨a, rfl, ha⟩))

/-- A program whose calls are answered ends. -/
theorem ends_of_answers (hsome : ∀ op s, ∃ r s', exec op s r s') (p : Prog Op Answer α) (s : σ) :
    p.Ends exec (fun _ _ => True) s := by
  induction p generalizing s with
  | done a => exact trivial
  | call op next ih => exact ⟨hsome op s, fun r s' _ => ih r s'⟩

/-- **A program keeps to the rules when it is alone.** The environment may be kinder than the one
that the rules are about. -/
theorem Keeps.ends {exec' : (op : Op) → σ → Answer op → σ → Prop} {rules : Rules Op σ}
    (hsome : ∀ op s, ∃ r s', exec' op s r s')
    (hexec : ∀ op s r s', exec' op s r s' → exec op s r s') (h : p.Keeps exec rules Q s)
    (hinv : rules.Inv s) :
    p.Ends exec' (fun a s' => Q a s' ∧ rules.Inv s' ∧ Relation.ReflTransGen rules.Step s s') s := by
  have hrun : ∀ s₀, Relation.ReflTransGen rules.Step s₀ s → p.Ends exec' (fun a s' =>
      Q a s' ∧ rules.Inv s' ∧ Relation.ReflTransGen rules.Step s₀ s') s := by
    induction p generalizing s with
    | done a => exact fun s₀ hs₀ => ⟨h, hinv, hs₀⟩
    | call op next ih =>
        refine fun s₀ hs₀ => ⟨hsome op s, fun r s' hr => ?_⟩
        obtain ⟨hinv', hstep, hnext⟩ := h s (.inl rfl) hinv r s' (hexec op s r s' hr)
        exact ih r hnext hinv' s₀ (hs₀.tail hstep)
  exact hrun s .refl

/-! ### What programs call -/

variable {P : Op → Prop}

theorem Calls.bind {f : α → Prog Op Answer β} (h : p.Calls P) (hf : ∀ a, (f a).Calls P) :
    (p.bind f).Calls P := by
  induction p with
  | done a => exact hf a
  | call op next ih => exact ⟨h.1, fun r => ih r (h.2 r)⟩

theorem Calls.bindThrowing {p : OptionT (Prog Op Answer) α} (h : p.run.Calls P)
    (hf : ∀ a, (f a).run.Calls P) : (p >>= f).run.Calls P := by
  rw [OptionT.run_bind]
  refine h.bind fun o => ?_
  cases o with
  | none => exact trivial
  | some a => exact hf a

theorem Calls.bindLift (h : p.Calls P) (hf : ∀ a, (f a).run.Calls P) :
    (OptionT.lift p >>= f).run.Calls P :=
  Calls.bindThrowing (h.bind fun _ => trivial) hf

/-- **What no called operation changes**, the program does not change. -/
theorem Calls.ends (h : p.Calls P) {I : σ → Prop} (hsome : ∀ op s, ∃ r s', exec op s r s')
    (hkept : ∀ op s r s', P op → exec op s r s' → I s → I s') (hI : I s) :
    p.Ends exec (fun _ s' => I s') s := by
  induction p generalizing s with
  | done a => exact hI
  | call op next ih =>
      exact ⟨hsome op s, fun r s' hexec => ih r (h.2 r) (hkept op s r s' h.1 hexec hI)⟩

/-! ### Runs -/

/-- A run of the program alone, with its result. -/
inductive Runs (exec : (op : Op) → σ → Answer op → σ → Prop) :
    Prog Op Answer α → σ → α → σ → Prop
  | done (a : α) (s : σ) : Runs exec (.done a) s a s
  | call {op : Op} {next : Answer op → Prog Op Answer α} {s s' s'' : σ} {r : Answer op} {a : α}
      (hexec : exec op s r s') (hrest : Runs exec (next r) s' a s'') :
      Runs exec (.call op next) s a s''

theorem Runs.of_done {b : α} (h : Runs exec (.done a) s b s') : b = a ∧ s' = s := by
  cases h with
  | done => exact ⟨rfl, rfl⟩

theorem Runs.of_call {op : Op} {next : Answer op → Prog Op Answer α}
    (h : Runs exec (.call op next) s a s'') :
    ∃ r s', exec op s r s' ∧ Runs exec (next r) s' a s'' := by
  cases h with
  | call hexec hrest => exact ⟨_, _, hexec, hrest⟩

/-- **The rule of sequence.** -/
theorem Runs.bind {f : α → Prog Op Answer β} {b : β} (h : Runs exec p s a s')
    (hf : Runs exec (f a) s' b s'') : Runs exec (p.bind f) s b s'' := by
  induction h with
  | done a s => exact hf
  | call hexec _ ih => exact .call hexec (ih hf)

theorem Runs.bindReturned {p : OptionT (Prog Op Answer) α} (h : Runs exec p.run s (some a) s')
    (hf : Runs exec (f a).run s' b s'') : Runs exec (p >>= f).run s b s'' := by
  rw [OptionT.run_bind]
  exact h.bind hf

theorem Runs.bindLift (h : Runs exec p s a s') (hf : Runs exec (f a).run s' b s'') :
    Runs exec (OptionT.lift p >>= f).run s b s'' :=
  Runs.bindReturned (h.bind (.done (some a) s')) hf

/-- **A program of a pool runs**, while the others wait. -/
theorem Runs.turns (h : Runs exec p s a s') (others : List (Prog Op Answer α)) :
    Relation.ReflTransGen (Turn exec starts) ⟨s, p :: others⟩ ⟨s', .done a :: others⟩ := by
  induction h with
  | done a s => exact .refl
  | call hexec _ ih => exact .head (Turn.first hexec _ others) ih

/-- A program takes turns, and goes on. -/
inductive Steps (exec : (op : Op) → σ → Answer op → σ → Prop) :
    Prog Op Answer α → σ → Prog Op Answer α → σ → Prop
  | refl (p : Prog Op Answer α) (s : σ) : Steps exec p s p s
  | call {op : Op} {next : Answer op → Prog Op Answer α} {p : Prog Op Answer α} {s s' s'' : σ}
      {r : Answer op} (hexec : exec op s r s') (hrest : Steps exec (next r) s' p s'') :
      Steps exec (.call op next) s p s''

/-- A program of a pool takes turns, while the others wait. -/
theorem Steps.turns {p' : Prog Op Answer α} (h : Steps exec p s p' s')
    (before after : List (Prog Op Answer α)) :
    Relation.ReflTransGen (Turn exec starts) ⟨s, before ++ p :: after⟩
      ⟨s', before ++ p' :: after⟩ := by
  induction h with
  | refl p s => exact .refl
  | call hexec _ ih => exact .head (.turn _ _ before after _ _ _ hexec) ih

end Concurrent.Prog
