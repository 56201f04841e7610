import MailPortal.Lib.Alone

/-!
# Calls that may Fail

Any operation of a program may fail. The program has the failure as a value, or throws: a program
that throws is one of `OptionT`, and `try` gives it back with the failure as a value.

Programs that wait at every operation keep to rules that are an invariant, and a relation for a
turn. What a worker knows while it waits must last; an operation is permitted to a worker who knows
enough for it.

Main results:

* `keeps_call`, `keeps_ask` : the rules of a call.
* `keeps_of_calls` : a program that calls only what everybody may.
-/

namespace Concurrent

universe u

variable {Op : Type} {Value : Op → Type} {σ : Type u} {α β : Type}

/-- A program that does not throw. -/
abbrev Fallible (Op : Type) (Value : Op → Type) (α : Type) : Type :=
  Prog Op (fun op => Option (Value op)) α

/-- A program that may throw. -/
abbrev Throws (Op : Type) (Value : Op → Type) (α : Type) : Type :=
  OptionT (Prog Op fun op => Option (Value op)) α

/-- Call an operation, and throw when it fails. -/
def perform (op : Op) : Throws Op Value (Value op) := OptionT.mk (Prog.ask op)

/-- `throw`, where a condition fails. -/
def throwUnless (condition : Bool) : Throws Op Value Unit :=
  OptionT.mk (pure (if condition then some () else none))

/-- A value, or a throw. -/
def orThrow (value : Option α) : Throws Op Value α := OptionT.mk (pure value)

@[simp] theorem throwUnless_true_bind (f : Unit → Throws Op Value α) :
    throwUnless true >>= f = f () := rfl

@[simp] theorem orThrow_some_bind (a : α) (f : α → Throws Op Value β) :
    orThrow (some a) >>= f = f a := rfl

/-! ### Rules -/

def turnRules (Op : Type) (Inv : σ → Prop) (Step : σ → σ → Prop) : Rules Op σ where
  Inv := Inv
  Step := Step
  Others := Step
  waits _ := true

/-- What a worker may know while it waits. -/
def Lasting (Step : σ → σ → Prop) (K : σ → Prop) : Prop := ∀ s s', Step s s' → K s → K s'

variable {exec : (op : Op) → σ → Option (Value op) → σ → Prop} {Inv : σ → Prop}
  {Step : σ → σ → Prop} {s : σ}

/-- An operation that a worker with this knowledge may call. -/
def Permits (exec : (op : Op) → σ → Option (Value op) → σ → Prop) (Inv : σ → Prop)
    (Step : σ → σ → Prop) (K : σ → Prop) (op : Op) : Prop :=
  ∀ s, Inv s → K s → ∀ answer s', exec op s answer s' → Inv s' ∧ Step s s'

/-- The program keeps to the rules. -/
abbrev TurnKeeps (exec : (op : Op) → σ → Option (Value op) → σ → Prop) (Inv : σ → Prop)
    (Step : σ → σ → Prop) (Q : α → σ → Prop) (p : Fallible Op Value α) (s : σ) : Prop :=
  p.Keeps exec (turnRules Op Inv Step) Q s

theorem lasting_true : Lasting Step fun _ => True := fun _ _ _ h => h

theorem Lasting.and {K K' : σ → Prop} (h : Lasting Step K) (h' : Lasting Step K') :
    Lasting Step fun s => K s ∧ K' s :=
  fun s s' hstep hK => ⟨h s s' hstep hK.1, h' s s' hstep hK.2⟩

variable {K : σ → Prop} {op : Op}

/-- The operation changes nothing. -/
theorem permits_of_eq (hrefl : ∀ s, Step s s) (h : ∀ s answer s', exec op s answer s' → s' = s) :
    Permits exec Inv Step K op := by
  intro s hinv _ answer s' hexec
  obtain rfl := h s answer s' hexec
  exact ⟨hinv, hrefl s'⟩

/-- **The rule of a call** whose failure is a value. -/
theorem keeps_ask {Q : β → σ → Prop}
    {f : Option (Value op) → Fallible Op Value β} (hlasting : Lasting Step K) (hK : K s)
    (hpermits : Permits exec Inv Step K op)
    (hnext : ∀ s₁ answer s₂, Inv s₁ → Inv s₂ → exec op s₁ answer s₂ → K s₂ →
      TurnKeeps exec Inv Step Q (f answer) s₂) :
    TurnKeeps exec Inv Step Q ((perform op).run >>= f) s := by
  refine Prog.Keeps.of_known K hlasting hK fun s₁ hinv hK₁ answer s₂ hexec => ?_
  obtain ⟨hinv₂, hstep⟩ := hpermits s₁ hinv hK₁ answer s₂ hexec
  exact ⟨hinv₂, hstep, hnext s₁ answer s₂ hinv hinv₂ hexec (hlasting s₁ s₂ hstep hK₁)⟩

variable {f : Value op → Throws Op Value β}

/-- **The rule of a call** that may throw. -/
theorem keeps_call {Q : Option β → σ → Prop} (hlasting : Lasting Step K) (hK : K s)
    (hpermits : Permits exec Inv Step K op) (hthrown : ∀ s', K s' → Q none s')
    (hnext : ∀ s₁ answer s₂, exec op s₁ (some answer) s₂ → K s₂ →
      TurnKeeps exec Inv Step Q (f answer).run s₂) :
    TurnKeeps exec Inv Step Q (perform op >>= f).run s := by
  refine Prog.Keeps.of_known K hlasting hK fun s₁ hinv hK₁ answer s₂ hexec => ?_
  obtain ⟨hinv₂, hstep⟩ := hpermits s₁ hinv hK₁ answer s₂ hexec
  have hK₂ := hlasting s₁ s₂ hstep hK₁
  refine ⟨hinv₂, hstep, ?_⟩
  cases answer with
  | none => exact hthrown s₂ hK₂
  | some answer => exact hnext s₁ answer s₂ hexec hK₂

/-- What lasts is still true when the program ends. -/
theorem TurnKeeps.lasting {Q : α → σ → Prop} {p : Fallible Op Value α}
    (h : TurnKeeps exec Inv Step Q p s) (hlasting : Lasting Step K) (hK : K s) :
    TurnKeeps exec Inv Step (fun a s' => Q a s' ∧ K s') p s := by
  induction p generalizing s with
  | done a => exact ⟨h, hK⟩
  | call op next ih =>
      refine Prog.Keeps.of_known (fun s₁ => K s₁ ∧ TurnKeeps exec Inv Step Q (.call op next) s₁)
        (fun s₁ s₂ hothers hknown => ?_) ⟨hK, h⟩ fun s₁ hinv hknown answer s₂ hexec => ?_
      · exact ⟨hlasting s₁ s₂ hothers hknown.1, hknown.2.stable rfl (.single hothers)⟩
      · obtain ⟨hinv₂, hstep, hnext⟩ := hknown.2 s₁ (.inl rfl) hinv answer s₂ hexec
        exact ⟨hinv₂, hstep, ih answer hnext (hlasting s₁ s₂ hstep hknown.1)⟩

/-- A program that calls only what everybody may keeps to the rules. -/
theorem keeps_of_calls {P : Op → Prop} {p : Fallible Op Value α} (hcalls : p.Calls P)
    (hpermits : ∀ op, P op → Permits exec Inv Step (fun _ => True) op) (s : σ) :
    TurnKeeps exec Inv Step (fun _ _ => True) p s := by
  induction p generalizing s with
  | done a => exact trivial
  | call op next ih =>
      intro s₁ _ hinv answer s₂ hexec
      obtain ⟨hinv₂, hstep⟩ := hpermits op hcalls.1 s₁ hinv trivial answer s₂ hexec
      exact ⟨hinv₂, hstep, ih answer (hcalls.2 answer) s₂⟩

theorem calls_call {P : Op → Prop} (h : P op)
    (hf : ∀ value, (f value).run.Calls P) : (perform op >>= f).run.Calls P :=
  Prog.Calls.bindThrowing ⟨h, fun _ => trivial⟩ hf

/-- A call that is answered. -/
theorem call_runs {value : Value op} {s s' : σ} (h : exec op s (some value) s') :
    (perform op).run.Runs exec s (some value) s' := .call h (.done _ _)

/-! ### Any rules -/

section Rules

variable {rules : Rules Op σ}

/-- What others do not take away. -/
def Lasts (rules : Rules Op σ) (K : σ → Prop) : Prop := ∀ s s', rules.Others s s' → K s → K s'

/-- **The rule of a call** whose failure is a value, for a worker who knows something. -/
theorem keeps_attempt {Q : β → σ → Prop}
    {f : Option (Value op) → Fallible Op Value β} (hlasts : Lasts rules K) (hK : K s)
    (h : ∀ s₁ answer s₂, rules.Inv s₁ → K s₁ → exec op s₁ answer s₂ →
      rules.Inv s₂ ∧ rules.Step s₁ s₂ ∧ (f answer).Keeps exec rules Q s₂) :
    ((perform op).run >>= f).Keeps exec rules Q s :=
  Prog.Keeps.of_known K hlasts hK fun s₁ hinv hK₁ answer s₂ hexec => h s₁ answer s₂ hinv hK₁ hexec

/-- **The rule of a call** that may throw, for a worker who knows something. -/
theorem keeps_perform {Q : Option β → σ → Prop} (hlasts : Lasts rules K) (hK : K s)
    (h : ∀ s₁ answer s₂, rules.Inv s₁ → K s₁ → exec op s₁ answer s₂ →
      rules.Inv s₂ ∧ rules.Step s₁ s₂ ∧ (answer = none → Q none s₂) ∧
        ∀ value, answer = some value → (f value).run.Keeps exec rules Q s₂) :
    (perform op >>= f).run.Keeps exec rules Q s := by
  refine Prog.Keeps.of_known K hlasts hK fun s₁ hinv hK₁ answer s₂ hexec => ?_
  obtain ⟨hinv₂, hstep, hthrown, hnext⟩ := h s₁ answer s₂ hinv hK₁ hexec
  refine ⟨hinv₂, hstep, ?_⟩
  cases answer with
  | none => exact hthrown rfl
  | some value => exact hnext value rfl

end Rules

/-! ### Pools -/

variable {starts : σ → Fallible Op Value α → Prop}

/-- **Any number of programs** that keep to the rules. -/
theorem turns_keep
    (hstarts : ∀ s p, Inv s → starts s p → TurnKeeps exec Inv Step (fun _ _ => True) p s)
    {pool pool' : Pool Op (fun op => Option (Value op)) α σ}
    (hturns : Relation.ReflTransGen (Turn exec starts) pool pool')
    (h : PoolKeeps exec (turnRules Op Inv Step) (fun _ _ => True) pool) :
    PoolKeeps exec (turnRules Op Inv Step) (fun _ _ => True) pool' ∧
      Relation.ReflTransGen Step pool.state pool'.state :=
  Turn.keepsPools (fun _ => rfl) (fun _ _ h => h) stable_true hstarts hturns h

theorem turn_keeps
    (hstarts : ∀ s p, Inv s → starts s p → TurnKeeps exec Inv Step (fun _ _ => True) p s)
    {pool pool' : Pool Op (fun op => Option (Value op)) α σ} (hturn : Turn exec starts pool pool')
    (h : PoolKeeps exec (turnRules Op Inv Step) (fun _ _ => True) pool) :
    pool'.state = pool.state ∨ Step pool.state pool'.state :=
  (Turn.keepsPool (fun _ => rfl) (fun _ _ h => h) stable_true hstarts hturn h).2

theorem reachable_keeps
    (hstarts : ∀ s p, Inv s → starts s p → TurnKeeps exec Inv Step (fun _ _ => True) p s)
    (hinv : Inv s) {pool : Pool Op (fun op => Option (Value op)) α σ}
    (hpool : Reachable exec starts s pool) :
    PoolKeeps exec (turnRules Op Inv Step) (fun _ _ => True) pool :=
  (turns_keep hstarts hpool ⟨hinv, nofun⟩).1

end Concurrent
