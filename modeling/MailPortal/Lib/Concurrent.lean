import Mathlib.Logic.Relation

/-!
# Programs that Take Turns

Programs share a state and act on it by atomic operations, one turn at a time. Before an
operation at which a program waits, any number of other turns may have happened. A program may
stop for ever after any turn, as one does that crashes.

`Keeps` says that a program, from a state on, keeps an invariant and takes only steps of a given
kind, provided that the others keep to theirs. It is stable under the steps of others, and
composes along `bind`.

Main results:

* `Reachable.keeps` : programs that take turns with each other, and wait at every operation.
  When every program that may start keeps to the rules, every state of every run satisfies the
  invariant, and every turn is a step of the given kind.
* `SoloReachable.keeps` : the same for one program at a time, in an environment that acts while
  the program waits.
-/

namespace Concurrent

universe u

variable {Op : Type} {Answer : Op → Type} {σ : Type u} {α β : Type}

/-- A program is done, or calls an operation and goes on with the answer. -/
inductive Prog (Op : Type) (Answer : Op → Type) (α : Type) : Type
  | done (a : α)
  | call (op : Op) (next : Answer op → Prog Op Answer α)

/-- The rules of a shared state: what always holds, what a turn may do, what others may do
between two turns, and at which operations a program waits for its turn. -/
structure Rules (Op : Type) (σ : Type u) where
  Inv : σ → Prop
  Step : σ → σ → Prop
  Others : σ → σ → Prop
  waits : Op → Bool

/-- What others may have done since. -/
def Rules.Since (rules : Rules Op σ) : σ → σ → Prop := Relation.ReflTransGen rules.Others

/-- What may have happened before an operation. -/
def Rules.Before (rules : Rules Op σ) (op : Op) (s s₁ : σ) : Prop :=
  s₁ = s ∨ rules.waits op = true ∧ rules.Since s s₁

variable {s : σ} {p : Prog Op Answer α}

namespace Prog

/-- One program after the other. -/
def bind : Prog Op Answer α → (α → Prog Op Answer β) → Prog Op Answer β
  | .done a, f => f a
  | .call op next, f => .call op fun r => bind (next r) f

instance : Monad (Prog Op Answer) where
  pure := .done
  bind := bind

/-- Call one operation. -/
def ask (op : Op) : Prog Op Answer (Answer op) := .call op .done

/-- **The program keeps to the rules**, from a state on, and ends in a state with `Q`. `exec` says
what an operation may answer and do. -/
def Keeps (exec : (op : Op) → σ → Answer op → σ → Prop) (rules : Rules Op σ)
    (Q : α → σ → Prop) : Prog Op Answer α → σ → Prop
  | .done a, s => Q a s
  | .call op next, s => ∀ s₁, rules.Before op s s₁ → rules.Inv s₁ → ∀ r s₂, exec op s₁ r s₂ →
      rules.Inv s₂ ∧ rules.Step s₁ s₂ ∧ Keeps exec rules Q (next r) s₂

variable {exec : (op : Op) → σ → Answer op → σ → Prop} {rules : Rules Op σ} {Q : α → σ → Prop}

/-- What others do does not matter to a program that waits. -/
theorem Keeps.stable {op : Op} {next : Answer op → Prog Op Answer α} {s s' : σ}
    (h : (Prog.call op next).Keeps exec rules Q s) (hwaits : rules.waits op = true)
    (hsince : rules.Since s s') : (Prog.call op next).Keeps exec rules Q s' := by
  rintro s₁ (rfl | ⟨-, hs₁⟩)
  · exact h s₁ (.inr ⟨hwaits, hsince⟩)
  · exact h s₁ (.inr ⟨hwaits, hsince.trans hs₁⟩)

/-- What a program knows when it waits, and others do not take away, it knows when it goes on. -/
theorem Keeps.of_known {op : Op} {next : Answer op → Prog Op Answer α} (K : σ → Prop)
    (hstable : ∀ s s', rules.Others s s' → K s → K s') (hK : K s)
    (h : ∀ s₁, rules.Inv s₁ → K s₁ → ∀ r s₂, exec op s₁ r s₂ →
      rules.Inv s₂ ∧ rules.Step s₁ s₂ ∧ (next r).Keeps exec rules Q s₂) :
    (Prog.call op next).Keeps exec rules Q s := by
  intro s₁ hbefore
  have hK₁ : K s₁ := by
    rcases hbefore with rfl | ⟨-, hsince⟩
    · exact hK
    · induction hsince with
      | refl => exact hK
      | tail _ hothers ih => exact hstable _ _ hothers ih
  exact fun hinv => h s₁ hinv hK₁

theorem Keeps.mono {Q' : α → σ → Prop} (h : p.Keeps exec rules Q s)
    (hQ : ∀ a s', Q a s' → Q' a s') : p.Keeps exec rules Q' s := by
  induction p generalizing s with
  | done a => exact hQ a s h
  | call op next ih =>
      intro s₁ hbefore hinv r s₂ hexec
      obtain ⟨hinv₂, hstep, hnext⟩ := h s₁ hbefore hinv r s₂ hexec
      exact ⟨hinv₂, hstep, ih r hnext⟩

/-- **The rule of sequence.** -/
theorem Keeps.bind {f : α → Prog Op Answer β} {Q' : β → σ → Prop}
    (h : p.Keeps exec rules (fun a s' => (f a).Keeps exec rules Q' s') s) :
    (p.bind f).Keeps exec rules Q' s := by
  induction p generalizing s with
  | done a => exact h
  | call op next ih =>
      intro s₁ hbefore hinv r s₂ hexec
      obtain ⟨hinv₂, hstep, hnext⟩ := h s₁ hbefore hinv r s₂ hexec
      exact ⟨hinv₂, hstep, ih r hnext⟩

/-! #### Programs that throw -/

/-- **The rule of sequence** for programs that throw. -/
theorem Keeps.bindThrowing {p : OptionT (Prog Op Answer) α} {f : α → OptionT (Prog Op Answer) β}
    {Q' : Option β → σ → Prop}
    (h : p.run.Keeps exec rules (fun o s' => (o = none → Q' none s') ∧
      ∀ a, o = some a → (f a).run.Keeps exec rules Q' s') s) :
    (p >>= f).run.Keeps exec rules Q' s := by
  rw [OptionT.run_bind]
  refine Keeps.bind (h.mono fun o s' ho => ?_)
  cases o with
  | none => exact ho.1 rfl
  | some a => exact ho.2 a rfl

/-- What follows a program that does not throw. -/
theorem Keeps.bindLift {f : α → OptionT (Prog Op Answer) β} {Q' : Option β → σ → Prop}
    (h : p.Keeps exec rules (fun a s' => (f a).run.Keeps exec rules Q' s') s) :
    (OptionT.lift p >>= f).run.Keeps exec rules Q' s := by
  refine Keeps.bindThrowing (Keeps.bind (h.mono fun a s' ha => ?_))
  refine ⟨fun hnone => ?_, fun a' hsome => ?_⟩
  · cases hnone
  · cases hsome
    exact ha

end Prog

/-! ### Runs of many programs -/

/-- The shared state, and the programs that are under way. -/
structure Pool (Op : Type) (Answer : Op → Type) (α : Type) (σ : Type u) where
  state : σ
  programs : List (Prog Op Answer α)

/-- A program starts, takes a turn, or stops for ever. -/
inductive Turn (exec : (op : Op) → σ → Answer op → σ → Prop)
    (starts : σ → Prog Op Answer α → Prop) : Pool Op Answer α σ → Pool Op Answer α σ → Prop
  | start (s : σ) (programs : List (Prog Op Answer α)) (p : Prog Op Answer α)
      (hstart : starts s p) : Turn exec starts ⟨s, programs⟩ ⟨s, p :: programs⟩
  | turn (s s' : σ) (before after : List (Prog Op Answer α)) (op : Op)
      (next : Answer op → Prog Op Answer α) (r : Answer op) (hexec : exec op s r s') :
      Turn exec starts ⟨s, before ++ .call op next :: after⟩ ⟨s', before ++ next r :: after⟩
  | stop (s : σ) (before after : List (Prog Op Answer α)) (p : Prog Op Answer α) :
      Turn exec starts ⟨s, before ++ p :: after⟩ ⟨s, before ++ after⟩

/-- The pools that turns lead to from a state in which no program is under way. -/
def Reachable (exec : (op : Op) → σ → Answer op → σ → Prop)
    (starts : σ → Prog Op Answer α → Prop) (s : σ) : Pool Op Answer α σ → Prop :=
  Relation.ReflTransGen (Turn exec starts) ⟨s, []⟩

section Run

variable {exec : (op : Op) → σ → Answer op → σ → Prop} {starts : σ → Prog Op Answer α → Prop}
  {rules : Rules Op σ}

/-- The program keeps to the rules, whatever it returns. -/
abbrev Prog.Behaves (exec : (op : Op) → σ → Answer op → σ → Prop) (rules : Rules Op σ)
    (p : Prog Op Answer α) (s : σ) : Prop := p.Keeps exec rules (fun _ _ => True) s

/-- All is in order: the invariant holds and the programs keep to the rules. -/
structure Orderly (exec : (op : Op) → σ → Answer op → σ → Prop) (rules : Rules Op σ)
    (pool : Pool Op Answer α σ) : Prop where
  inv : rules.Inv pool.state
  behaves : ∀ p ∈ pool.programs, p.Behaves exec rules pool.state

/-- Nothing that others do makes a result wrong. -/
def Stable (rules : Rules Op σ) (Q : α → σ → Prop) : Prop :=
  ∀ a s s', rules.Others s s' → Q a s → Q a s'

/-- The invariant holds, the programs keep to the rules, and those that are done satisfy `Q`. -/
structure PoolKeeps (exec : (op : Op) → σ → Answer op → σ → Prop) (rules : Rules Op σ)
    (Q : α → σ → Prop) (pool : Pool Op Answer α σ) : Prop where
  inv : rules.Inv pool.state
  keeps : ∀ p ∈ pool.programs, p.Keeps exec rules Q pool.state

/-- The first program takes a turn. -/
theorem Turn.first {s s' : σ} {op : Op} {r : Answer op} (hexec : exec op s r s')
    (next : Answer op → Prog Op Answer α) (after : List (Prog Op Answer α)) :
    Turn exec starts ⟨s, .call op next :: after⟩ ⟨s', next r :: after⟩ :=
  .turn s s' [] after op next r hexec

variable {Q : α → σ → Prop}

theorem Prog.Keeps.others {s s' : σ} (h : p.Keeps exec rules Q s)
    (hwaits : ∀ op, rules.waits op = true) (hstable : Stable rules Q)
    (hothers : rules.Others s s') : p.Keeps exec rules Q s' := by
  cases p with
  | done a => exact hstable a s s' hothers h
  | call op next => exact Prog.Keeps.stable h (hwaits op) (.single hothers)

variable {pool pool' : Pool Op Answer α σ}

section

variable (hwaits : ∀ op, rules.waits op = true)
include hwaits

/-- A turn is a step of the rules, or leaves the state as it is. -/
theorem Turn.keepsPool (hothers : ∀ s s', rules.Step s s' → rules.Others s s')
    (hstable : Stable rules Q) (hstarts : ∀ s p, rules.Inv s → starts s p → p.Keeps exec rules Q s)
    (hturn : Turn exec starts pool pool')
    (h : PoolKeeps exec rules Q pool) : PoolKeeps exec rules Q pool' ∧
      (pool'.state = pool.state ∨ rules.Step pool.state pool'.state) := by
  cases hturn with
  | start s programs p hstart =>
      refine ⟨⟨h.inv, fun p' hp' => ?_⟩, .inl rfl⟩
      rcases List.mem_cons.mp hp' with rfl | hp'
      · exact hstarts s p' h.inv hstart
      · exact h.keeps p' hp'
  | turn s s' before after op next r hexec =>
      have hcall := h.keeps (.call op next) (List.mem_append_right _ List.mem_cons_self)
      obtain ⟨hinv, hstep, hnext⟩ := hcall s (.inl rfl) h.inv r s' hexec
      refine ⟨⟨hinv, fun p hp => ?_⟩, .inr hstep⟩
      have hother : ∀ p ∈ before ++ .call op next :: after, p.Keeps exec rules Q s' :=
        fun p hp => (h.keeps p hp).others hwaits hstable (hothers s s' hstep)
      rcases List.mem_append.mp hp with hp | hp
      · exact hother p (List.mem_append_left _ hp)
      · rcases List.mem_cons.mp hp with rfl | hp
        · exact hnext
        · exact hother p (List.mem_append_right _ (List.mem_cons_of_mem _ hp))
  | stop s before after p =>
      refine ⟨⟨h.inv, fun p' hp' => h.keeps p' ?_⟩, .inl rfl⟩
      rcases List.mem_append.mp hp' with hp' | hp'
      · exact List.mem_append_left _ hp'
      · exact List.mem_append_right _ (List.mem_cons_of_mem _ hp')

/-- Any number of turns does what the rules allow. -/
theorem Turn.keepsPools (hothers : ∀ s s', rules.Step s s' → rules.Others s s')
    (hstable : Stable rules Q) (hstarts : ∀ s p, rules.Inv s → starts s p → p.Keeps exec rules Q s)
    (hturns : Relation.ReflTransGen (Turn exec starts) pool pool')
    (h : PoolKeeps exec rules Q pool) :
    PoolKeeps exec rules Q pool' ∧ rules.Since pool.state pool'.state := by
  induction hturns with
  | refl => exact ⟨h, .refl⟩
  | tail _ hturn ih =>
      obtain ⟨hkeeps, hsince⟩ := ih
      obtain ⟨hkeeps', hsame | hstep⟩ := Turn.keepsPool hwaits hothers hstable hstarts hturn hkeeps
      · exact ⟨hkeeps', hsame ▸ hsince⟩
      · exact ⟨hkeeps', hsince.tail (hothers _ _ hstep)⟩

/-- **Programs that keep to the rules keep the invariant**, and their results stay true, in every
state that they reach. -/
theorem Reachable.keepsPool (hothers : ∀ s s', rules.Step s s' → rules.Others s s')
    (hstable : Stable rules Q) (hstarts : ∀ s p, rules.Inv s → starts s p → p.Keeps exec rules Q s)
    (hinv : rules.Inv s) {pool : Pool Op Answer α σ} (h : Reachable exec starts s pool) :
    PoolKeeps exec rules Q pool ∧ rules.Since s pool.state :=
  Turn.keepsPools hwaits hothers hstable hstarts h ⟨hinv, nofun⟩

end

theorem stable_true : Stable rules fun (_ : α) _ => True := fun _ _ _ _ h => h

/-- A turn is a step of the rules, or leaves the state as it is. -/
theorem Turn.keeps (hwaits : ∀ op, rules.waits op = true)
    (hothers : ∀ s s', rules.Step s s' → rules.Others s s')
    (hstarts : ∀ s p, rules.Inv s → starts s p → p.Behaves exec rules s)
    (hturn : Turn exec starts pool pool')
    (h : Orderly exec rules pool) :
    Orderly exec rules pool' ∧ (pool'.state = pool.state ∨ rules.Step pool.state pool'.state) := by
  obtain ⟨hkeeps, hstep⟩ :=
    Turn.keepsPool hwaits hothers stable_true hstarts hturn ⟨h.inv, h.behaves⟩
  exact ⟨⟨hkeeps.inv, hkeeps.keeps⟩, hstep⟩

/-- **Programs that keep to the rules keep the invariant**, in every state that they reach. -/
theorem Reachable.keeps (hwaits : ∀ op, rules.waits op = true)
    (hothers : ∀ s s', rules.Step s s' → rules.Others s s')
    (hstarts : ∀ s p, rules.Inv s → starts s p → p.Behaves exec rules s)
    (hinv : rules.Inv s) {pool : Pool Op Answer α σ} (h : Reachable exec starts s pool) :
    Orderly exec rules pool ∧ rules.Since s pool.state := by
  obtain ⟨hkeeps, hsince⟩ := Reachable.keepsPool hwaits hothers stable_true hstarts hinv h
  exact ⟨⟨hkeeps.inv, hkeeps.keeps⟩, hsince⟩

end Run

/-! ### Runs of one program at a time -/

/-- The state, and the program that is under way. -/
structure Solo (Op : Type) (Answer : Op → Type) (α : Type) (σ : Type u) where
  state : σ
  program : Option (Prog Op Answer α)

/-- The program waits for its turn. -/
def Prog.Waiting (waits : Op → Bool) : Prog Op Answer α → Prop
  | .done _ => False
  | .call op _ => waits op = true

/-- A program starts when none is under way, takes a turn, ends, or stops for ever; and others
act while none is under way or the one that is waits. -/
inductive SoloTurn (exec : (op : Op) → σ → Answer op → σ → Prop) (waits : Op → Bool)
    (others : σ → σ → Prop) (starts : Prog Op Answer α → Prop) :
    Solo Op Answer α σ → Solo Op Answer α σ → Prop
  | start (s : σ) (p : Prog Op Answer α) (hstart : starts p) :
      SoloTurn exec waits others starts ⟨s, none⟩ ⟨s, some p⟩
  | turn (s s' : σ) (op : Op) (next : Answer op → Prog Op Answer α) (r : Answer op)
      (hexec : exec op s r s') :
      SoloTurn exec waits others starts ⟨s, some (.call op next)⟩ ⟨s', some (next r)⟩
  | finish (s : σ) (a : α) : SoloTurn exec waits others starts ⟨s, some (.done a)⟩ ⟨s, none⟩
  | stop (s : σ) (p : Prog Op Answer α) : SoloTurn exec waits others starts ⟨s, some p⟩ ⟨s, none⟩
  | others (s s' : σ) (program : Option (Prog Op Answer α)) (hothers : others s s')
      (hwaiting : ∀ p, program = some p → p.Waiting waits) :
      SoloTurn exec waits others starts ⟨s, program⟩ ⟨s', program⟩

/-- What turns lead to from a state in which no program is under way. -/
def SoloReachable (exec : (op : Op) → σ → Answer op → σ → Prop) (waits : Op → Bool)
    (others : σ → σ → Prop) (starts : Prog Op Answer α → Prop) (s : σ) :
    Solo Op Answer α σ → Prop :=
  Relation.ReflTransGen (SoloTurn exec waits others starts) ⟨s, none⟩

section Solo

variable {exec : (op : Op) → σ → Answer op → σ → Prop} {starts : Prog Op Answer α → Prop}
  {rules : Rules Op σ} {Q : α → σ → Prop}

/-- The invariant holds and the program that is under way keeps to the rules. -/
structure SoloOrderly (exec : (op : Op) → σ → Answer op → σ → Prop) (rules : Rules Op σ)
    (Q : α → σ → Prop) (solo : Solo Op Answer α σ) : Prop where
  inv : rules.Inv solo.state
  keeps : ∀ p, solo.program = some p → p.Keeps exec rules Q solo.state

/-- A turn is a step of the rules, or one of others, or leaves the state as it is. -/
theorem SoloTurn.keeps (hothers : ∀ s s', rules.Inv s → rules.Others s s' → rules.Inv s')
    (hstarts : ∀ s p, rules.Inv s → starts p → p.Keeps exec rules Q s)
    {solo solo' : Solo Op Answer α σ}
    (hturn : SoloTurn exec rules.waits rules.Others starts solo solo')
    (h : SoloOrderly exec rules Q solo) :
    SoloOrderly exec rules Q solo' ∧ (solo'.state = solo.state ∨
      rules.Step solo.state solo'.state ∨ rules.Others solo.state solo'.state) := by
  cases hturn with
  | start s p hstart =>
      exact ⟨⟨h.inv, fun p' hp' => Option.some.inj hp' ▸ hstarts s p h.inv hstart⟩, .inl rfl⟩
  | turn s s' op next r hexec =>
      obtain ⟨hinv, hstep, hnext⟩ := h.keeps _ rfl s (.inl rfl) h.inv r s' hexec
      exact ⟨⟨hinv, fun p hp => Option.some.inj hp ▸ hnext⟩, .inr (.inl hstep)⟩
  | finish s a => exact ⟨⟨h.inv, fun p hp => nomatch hp⟩, .inl rfl⟩
  | stop s p => exact ⟨⟨h.inv, fun p hp => nomatch hp⟩, .inl rfl⟩
  | others s s' program hstep hwaiting =>
      refine ⟨⟨hothers s s' h.inv hstep, fun p hp => ?_⟩, .inr (.inr hstep)⟩
      have hwaits := hwaiting p hp
      have hkeeps := h.keeps p hp
      cases p with
      | done a => exact hwaits.elim
      | call op next => exact hkeeps.stable hwaits (.single hstep)

/-- **A program that keeps to the rules keeps the invariant**, in every state of every run. -/
theorem SoloReachable.keeps (hothers : ∀ s s', rules.Inv s → rules.Others s s' → rules.Inv s')
    (hstarts : ∀ s p, rules.Inv s → starts p → p.Keeps exec rules Q s)
    (hinv : rules.Inv s) {solo : Solo Op Answer α σ}
    (h : SoloReachable exec rules.waits rules.Others starts s solo) :
    SoloOrderly exec rules Q solo := by
  induction h with
  | refl => exact ⟨hinv, fun p hp => nomatch hp⟩
  | tail _ hturn ih => exact (SoloTurn.keeps hothers hstarts hturn ih).1

end Solo

end Concurrent
