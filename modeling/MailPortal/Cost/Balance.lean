import Mathlib.Algebra.GroupWithZero.Nat
import MailPortal.Cost.Controller

/-!
# The Balance of the Ledger

The totals of a month are kept by triggers, one for each transition of an event. This module
proves that they agree with the events, and that reservations keep to the budget.

Main results:

* `updateEvents_balance` : settling any events moves their estimates out of what is reserved,
  and their costs into what is spent.
* `LedgerOp.exec_keeps` : every operation that keeps to its limit keeps the invariant
  `LedgerInv`, and does no more than `LedgerStep` says.
-/

namespace MailPortal.Cost

open Failure Table

variable {key : String × String} {f : AiUsageRow → AiUsageRow}
variable {month : AiMonthRow} {p : AiUsageRow → Bool} {ledger₁ : Ledger} {maximum : ℕ}
  {row : AiUsageRow} {op : LedgerOp} {inserted : Bool}

/-! ### Totals -/

/-- What the reservations of a month amount to. -/
def reservedTotal (events : List AiUsageRow) (key : String × String) : ℕ :=
  ((events.filter fun e => e.key = key && e.state = .reserved).map (·.estimatedCostMicros)).sum

/-- What the settled uses of a month cost. -/
def spentTotal (events : List AiUsageRow) (key : String × String) : ℕ :=
  ((events.filter fun e => e.key = key && e.state.isSettled).map (·.actualCostMicros)).sum

/-- No use cost more than was estimated. -/
def WithinEstimates (events : List AiUsageRow) : Prop :=
  ∀ e ∈ events, e.state.isSettled = true → e.actualCostMicros ≤ e.estimatedCostMicros

/-- What may be spent in a month. -/
def AiMonthRow.limit (config : AiCostControlConfig) (month : AiMonthRow) : ℕ :=
  max month.approvedBudgetMicros config.reviewThresholdMicros

theorem reservedTotal_cons (e : AiUsageRow) (events : List AiUsageRow) (key : String × String) :
    reservedTotal (e :: events) key =
      (if e.key = key ∧ e.state = .reserved then e.estimatedCostMicros else 0) +
        reservedTotal events key := by
  by_cases h : e.key = key ∧ e.state = .reserved
  · rw [reservedTotal, List.filter_cons_of_pos (by simp [h]), List.map_cons, List.sum_cons,
      if_pos h, reservedTotal]
  · rw [reservedTotal, List.filter_cons_of_neg (by simpa using h), if_neg h, Nat.zero_add,
      reservedTotal]

theorem spentTotal_cons (e : AiUsageRow) (events : List AiUsageRow) (key : String × String) :
    spentTotal (e :: events) key =
      (if e.key = key ∧ e.state.isSettled = true then e.actualCostMicros else 0) +
        spentTotal events key := by
  by_cases h : e.key = key ∧ e.state.isSettled = true
  · rw [spentTotal, List.filter_cons_of_pos (by simp [h]), List.map_cons, List.sum_cons,
      if_pos h, spentTotal]
  · rw [spentTotal, List.filter_cons_of_neg (by simpa using h), if_neg h, Nat.zero_add,
      spentTotal]

theorem reservedTotal_append (events : List AiUsageRow) (e : AiUsageRow)
    (key : String × String) : reservedTotal (events ++ [e]) key = reservedTotal events key +
      (if e.key = key ∧ e.state = .reserved then e.estimatedCostMicros else 0) := by
  induction events with
  | nil =>
      rw [List.nil_append, reservedTotal_cons]
      exact Nat.add_comm _ _
  | cons e' events ih =>
      rw [List.cons_append, reservedTotal_cons, ih, reservedTotal_cons, Nat.add_assoc]

theorem spentTotal_append (events : List AiUsageRow) (e : AiUsageRow) (key : String × String) :
    spentTotal (events ++ [e]) key = spentTotal events key +
      (if e.key = key ∧ e.state.isSettled = true then e.actualCostMicros else 0) := by
  induction events with
  | nil =>
      rw [List.nil_append, spentTotal_cons]
      exact Nat.add_comm _ _
  | cons e' events ih =>
      rw [List.cons_append, spentTotal_cons, ih, spentTotal_cons, Nat.add_assoc]

/-- The months without events have no totals. -/
theorem totals_of_unknown {events : List AiUsageRow} (h : ∀ e ∈ events, e.key ≠ key) :
    reservedTotal events key = 0 ∧ spentTotal events key = 0 := by
  induction events with
  | nil => exact ⟨rfl, rfl⟩
  | cons e events ih =>
      obtain ⟨hreserved, hspent⟩ := ih fun e' he' => h e' (List.mem_cons_of_mem e he')
      have hne := h e List.mem_cons_self
      rw [reservedTotal_cons, spentTotal_cons, hreserved, hspent]
      simp [hne]

/-! ### Settling events -/

/-- The change of an event that is reserved: it stays reserved or is settled. -/
structure Settles (p : AiUsageRow → Bool) (f : AiUsageRow → AiUsageRow) : Prop where
  reserved : ∀ e, p e = true → e.state = .reserved
  identity : ∀ e, (f e).toAiUsageIdentity = e.toAiUsageIdentity
  estimate : ∀ e, (f e).estimatedCostMicros = e.estimatedCostMicros
  state : ∀ e, p e = true → (f e).state = .reserved ∨ (f e).state.isSettled = true

/-- What the triggers do to a month when an event changes. -/
def AiMonthRow.afterUpdate (old new : AiUsageRow) (month : AiMonthRow) : AiMonthRow :=
  if month.key = new.key ∧ old.state = .reserved ∧ new.state.isSettled = true then
    month.settle old new
  else month

/-- The triggers, month by month. -/
theorem afterUpdate_months (old new : AiUsageRow) (months : List AiMonthRow) :
    failAfterUpdate old new (completeAfterUpdate old new months) =
      months.map (·.afterUpdate old new) := by
  rw [failAfterUpdate, completeAfterUpdate, settleAfterUpdate, settleAfterUpdate]
  by_cases hold : old.state = .reserved
  · cases hnew : new.state <;>
      simp [hold, hnew, AiMonthRow.afterUpdate, AiUsageState.isSettled, updateWhere]
  · simp [hold, AiMonthRow.afterUpdate]

theorem foldl_map {ρ ε : Type} (g : ε → ρ → ρ) (es : List ε) (rows : List ρ) :
    es.foldl (fun rows e => rows.map (g e)) rows =
      rows.map fun r => es.foldl (fun r e => g e r) r := by
  induction es generalizing rows with
  | nil => simp
  | cons e es ih => simp [ih]

theorem AiMonthRow.afterUpdate_key (old new : AiUsageRow) (month : AiMonthRow) :
    (month.afterUpdate old new).key = month.key ∧
      (month.afterUpdate old new).approvedBudgetMicros = month.approvedBudgetMicros := by
  rw [AiMonthRow.afterUpdate]
  split <;> exact ⟨rfl, rfl⟩

/-- The change of one event keeps the balance of a month. `r` and `t` are what the other events
amount to. -/
theorem AiMonthRow.afterUpdate_balance {old new : AiUsageRow} (hold : old.state = .reserved)
    (hkey : new.key = old.key) (hestimate : new.estimatedCostMicros = old.estimatedCostMicros)
    (hnew : new.state = .reserved ∨ new.state.isSettled = true) {r t : ℕ}
    (hreserved : month.reservedMicros =
      (if old.key = month.key ∧ old.state = .reserved then old.estimatedCostMicros else 0) + r)
    (hspent : month.spentMicros =
      (if old.key = month.key ∧ old.state.isSettled = true then old.actualCostMicros else 0) + t) :
    (month.afterUpdate old new).reservedMicros =
        (if new.key = month.key ∧ new.state = .reserved then new.estimatedCostMicros else 0) + r ∧
      (month.afterUpdate old new).spentMicros =
        (if new.key = month.key ∧ new.state.isSettled = true then new.actualCostMicros else 0) +
          t ∧
      ((new.state.isSettled = true → new.actualCostMicros ≤ new.estimatedCostMicros) →
        (month.afterUpdate old new).spentMicros + (month.afterUpdate old new).reservedMicros ≤
          month.spentMicros + month.reservedMicros) := by
  have hopen : AiUsageState.reserved.isSettled = false := rfl
  simp only [hold, hopen, Bool.false_eq_true, and_false, and_true, if_false] at hreserved hspent
  rw [AiMonthRow.afterUpdate, hkey, hestimate]
  by_cases hmonth : old.key = month.key
  · rw [if_pos hmonth] at hreserved
    rcases hnew with hnew | hnew
    · -- the event stays reserved, and the triggers do not fire
      simp only [hmonth, hnew, hopen, Bool.false_eq_true, and_false, and_true, if_false,
        if_true]
      omega
    · have hleft : new.state ≠ .reserved := by
        intro hstate
        rw [hstate] at hnew
        cases hnew
      simp only [hmonth, hold, hnew, hleft, and_true, and_false, if_true, if_false,
        AiMonthRow.settle]
      refine ⟨by omega, by omega, fun hwithin => ?_⟩
      have hcost := hwithin trivial
      omega
  · have hmonth' : ¬ month.key = old.key := fun h => hmonth h.symm
    simp only [hmonth, hmonth', false_and, if_false] at hreserved ⊢
    omega

/-- **Settling events keeps the balance of a month**, and what it is committed to does not grow
while no use costs more than was estimated. By induction on the events; `c` and `d` are what the
events before have left. -/
theorem updateEvents_balance (hsettles : Settles p f) (events : List AiUsageRow) {c d : ℕ}
    (hreserved : month.reservedMicros = reservedTotal events month.key + c)
    (hspent : month.spentMicros = spentTotal events month.key + d) :
    let month' := (events.filter p).foldl (fun m e => m.afterUpdate e (f e)) month
    month'.key = month.key ∧ month'.approvedBudgetMicros = month.approvedBudgetMicros ∧
      month'.reservedMicros = reservedTotal (updateWhere p f events) month.key + c ∧
      month'.spentMicros = spentTotal (updateWhere p f events) month.key + d ∧
      (WithinEstimates (updateWhere p f events) →
        month'.spentMicros + month'.reservedMicros ≤ month.spentMicros + month.reservedMicros) := by
  induction events generalizing month c d with
  | nil => exact ⟨rfl, rfl, hreserved, hspent, fun _ => le_rfl⟩
  | cons e events ih =>
      rw [reservedTotal_cons, Nat.add_assoc] at hreserved
      rw [spentTotal_cons, Nat.add_assoc] at hspent
      cases hp : p e with
      | false =>
          have hupdate : updateWhere p f (e :: events) = e :: updateWhere p f events := by
            simp [updateWhere, hp]
          rw [hupdate, List.filter_cons_of_neg (by simp [hp]), reservedTotal_cons,
            spentTotal_cons]
          obtain ⟨hkey, happroved, hreserved', hspent', htotal⟩ :=
            ih (hreserved.trans (Nat.add_left_comm _ _ _)) (hspent.trans (Nat.add_left_comm _ _ _))
          exact ⟨hkey, happroved, by omega, by omega,
            fun hwithin => htotal fun e' he' => hwithin e' (List.mem_cons_of_mem _ he')⟩
      | true =>
          have hupdate : updateWhere p f (e :: events) = f e :: updateWhere p f events := by
            simp [updateWhere, hp]
          obtain ⟨hreserved₁, hspent₁, htotal₁⟩ := AiMonthRow.afterUpdate_balance
            (hsettles.reserved e hp) (congrArg AiUsageIdentity.key (hsettles.identity e))
            (hsettles.estimate e) (hsettles.state e hp) hreserved hspent
          obtain ⟨hkey₁, happroved₁⟩ := AiMonthRow.afterUpdate_key e (f e) month
          rw [hupdate, List.filter_cons_of_pos hp, List.foldl_cons, reservedTotal_cons,
            spentTotal_cons]
          rw [← hkey₁] at hreserved₁ hspent₁ ⊢
          obtain ⟨hkey, happroved, hreserved', hspent', htotal⟩ :=
            ih (hreserved₁.trans (Nat.add_left_comm _ _ _))
              (hspent₁.trans (Nat.add_left_comm _ _ _))
          refine ⟨hkey, happroved.trans happroved₁, by omega, by omega, fun hwithin => ?_⟩
          have hrest := htotal fun e' he' => hwithin e' (List.mem_cons_of_mem _ he')
          have hhead := htotal₁ (hwithin (f e) List.mem_cons_self)
          omega

/-! ### The rules of the ledger -/

/-- **The ledger is balanced and under budget.** -/
structure LedgerInv (config : AiCostControlConfig) (ledger : Ledger) : Prop where
  keys : (ledger.months.map AiMonthRow.key).Nodup
  ids : (ledger.events.map (·.id)).Nodup
  known : ∀ e ∈ ledger.events, ∃ m ∈ ledger.months, m.key = e.key
  balanced : ∀ m ∈ ledger.months, m.reservedMicros = reservedTotal ledger.events m.key ∧
    m.spentMicros = spentTotal ledger.events m.key
  budget : WithinEstimates ledger.events → ∀ m ∈ ledger.months,
    m.spentMicros + m.reservedMicros ≤ m.limit config

/-- **What an operation may do to the ledger.** -/
structure LedgerStep (config : AiCostControlConfig) (ledger ledger' : Ledger) : Prop where
  /-- An event that is not a reservation any more stays as it is. -/
  settled : ∀ e ∈ ledger.events, e.state ≠ .reserved → e ∈ ledger'.events
  /-- An approved budget does not decrease. -/
  approved : ∀ m ∈ ledger.months, ∃ m' ∈ ledger'.months,
    m'.key = m.key ∧ m.approvedBudgetMicros ≤ m'.approvedBudgetMicros
  /-- A new reservation of the strong tier leaves the month below the alert threshold. -/
  strong : ∀ e ∈ ledger'.events, e.state = .reserved → e.selectedTier = .strong →
    (∀ old ∈ ledger.events, old.id ≠ e.id) → ∀ m ∈ ledger'.months, m.key = e.key →
      m.spentMicros + m.reservedMicros ≤ config.alertThresholdMicros

theorem LedgerInv.empty (config : AiCostControlConfig) : LedgerInv config .empty where
  keys := List.nodup_nil
  ids := List.nodup_nil
  known _ h := absurd h List.not_mem_nil
  balanced _ h := absurd h List.not_mem_nil
  budget _ _ h := absurd h List.not_mem_nil

variable {config : AiCostControlConfig} {ledger ledger' : Ledger}

theorem LedgerStep.refl (config : AiCostControlConfig) (ledger : Ledger) :
    LedgerStep config ledger ledger where
  settled _ he _ := he
  approved m hm := ⟨m, hm, rfl, le_rfl⟩
  strong e he _ _ hnew := absurd rfl (hnew e he)

/-- A step may be preceded by the insertion of months. -/
theorem LedgerStep.of_months (h : LedgerStep config ledger₁ ledger')
    (hevents : ledger₁.events = ledger.events) (hmonths : ∀ m ∈ ledger.months, m ∈ ledger₁.months) :
    LedgerStep config ledger ledger' where
  settled e he := h.settled e (hevents ▸ he)
  approved m hm := h.approved m (hmonths m hm)
  strong e he hstate htier hnew := h.strong e he hstate htier (hevents ▸ hnew)

/-- Two steps without new events are one. -/
theorem LedgerStep.trans (h₁ : LedgerStep config ledger ledger₁)
    (h₂ : LedgerStep config ledger₁ ledger')
    (hids : ledger'.events.map (·.id) = ledger.events.map (·.id)) :
    LedgerStep config ledger ledger' where
  settled e he hstate := h₂.settled e (h₁.settled e he hstate) hstate
  approved m hm := by
    obtain ⟨m₁, hm₁, hkey₁, hgrown₁⟩ := h₁.approved m hm
    obtain ⟨m', hm', hkey', hgrown'⟩ := h₂.approved m₁ hm₁
    exact ⟨m', hm', hkey'.trans hkey₁, hgrown₁.trans hgrown'⟩
  strong e he _ _ hnew := by
    have hmem : e.id ∈ ledger.events.map (·.id) := hids ▸ List.mem_map.mpr ⟨e, he, rfl⟩
    obtain ⟨old, hold, hid⟩ := List.mem_map.mp hmem
    exact absurd hid (hnew old hold)

/-- A month is there after `#ensureMonth`, with the budget that is approved by default when it is
new. -/
theorem LedgerInv.ensureMonth (h : LedgerInv config ledger) (environment monthKey : String)
    (updatedAt : ℤ) :
    let ledger₁ := ensureMonth environment monthKey updatedAt config.reviewThresholdMicros ledger
    LedgerInv config ledger₁ ∧ ledger₁.events = ledger.events ∧
      ∀ m ∈ ledger.months, m ∈ ledger₁.months := by
  dsimp only
  rw [Cost.ensureMonth]
  cases hmonth : ledger.month environment monthKey with
  | some month => exact ⟨h, rfl, fun m hm => hm⟩
  | none =>
      have hnew : ∀ m ∈ ledger.months, m.key ≠ (environment, monthKey) := fun m hm hkey => by
        have hnone := List.find?_eq_none.mp hmonth m hm
        simp [hkey] at hnone
      have hunknown : ∀ e ∈ ledger.events, e.key ≠ (environment, monthKey) := fun e he hkey => by
        obtain ⟨m, hm, hsame⟩ := h.known e he
        exact hnew m hm (hsame.trans hkey)
      refine ⟨⟨?_, h.ids, fun e he => ?_, fun m hm => ?_, fun hwithin m hm => ?_⟩, rfl,
        fun m hm => List.mem_append_left _ hm⟩
      · rw [List.map_append, List.map_singleton]
        refine List.Nodup.append h.keys (List.nodup_singleton _) fun key hkey hlast => ?_
        obtain ⟨m, hm, rfl⟩ := List.mem_map.mp hkey
        exact hnew m hm (List.mem_singleton.mp hlast)
      · obtain ⟨m, hm, hkey⟩ := h.known e he
        exact ⟨m, List.mem_append_left _ hm, hkey⟩
      · rcases List.mem_append.mp hm with hm | hm
        · exact h.balanced m hm
        · rw [List.mem_singleton.mp hm]
          obtain ⟨hreserved, hspent⟩ := totals_of_unknown hunknown
          exact ⟨hreserved.symm, hspent.symm⟩
      · rcases List.mem_append.mp hm with hm | hm
        · exact h.budget hwithin m hm
        · rw [List.mem_singleton.mp hm]
          exact Nat.zero_le _

/-- Months change in what the totals do not look at, and their budgets may grow. -/
theorem LedgerInv.touch (h : LedgerInv config ledger) {p : AiMonthRow → Bool}
    {g : AiMonthRow → AiMonthRow}
    (hsame : ∀ m, (g m).key = m.key ∧ (g m).spentMicros = m.spentMicros ∧
      (g m).reservedMicros = m.reservedMicros)
    (happroved : ∀ m ∈ ledger.months, p m = true →
      m.approvedBudgetMicros ≤ (g m).approvedBudgetMicros) (reviews : List AiBudgetReviewRow) :
    LedgerInv config ⟨updateWhere p g ledger.months, ledger.events, reviews⟩ ∧
      LedgerStep config ledger ⟨updateWhere p g ledger.months, ledger.events, reviews⟩ := by
  have hkeys : (updateWhere p g ledger.months).map AiMonthRow.key =
      ledger.months.map AiMonthRow.key := map_key_updateWhere fun m => (hsame m).1
  have hfrom : ∀ m' ∈ updateWhere p g ledger.months, ∃ m ∈ ledger.months, m'.key = m.key ∧
      m'.spentMicros = m.spentMicros ∧ m'.reservedMicros = m.reservedMicros ∧
      m.approvedBudgetMicros ≤ m'.approvedBudgetMicros := by
    intro m' hm'
    rcases mem_updateWhere.mp hm' with ⟨m, hm, hp, rfl⟩ | ⟨hm, -⟩
    · exact ⟨m, hm, (hsame m).1, (hsame m).2.1, (hsame m).2.2, happroved m hm hp⟩
    · exact ⟨m', hm, rfl, rfl, rfl, le_rfl⟩
  refine ⟨⟨hkeys ▸ h.keys, h.ids, fun e he => ?_, fun m' hm' => ?_, fun hwithin m' hm' => ?_⟩,
    ⟨fun e he _ => he, fun m hm => ?_, fun e he _ _ hnew => absurd rfl (hnew e he)⟩⟩
  · obtain ⟨m, hm, hkey⟩ := h.known e he
    have hmem : m.key ∈ (updateWhere p g ledger.months).map AiMonthRow.key :=
      hkeys ▸ List.mem_map.mpr ⟨m, hm, rfl⟩
    obtain ⟨m', hm', hkey'⟩ := List.mem_map.mp hmem
    exact ⟨m', hm', hkey'.trans hkey⟩
  · obtain ⟨m, hm, hkey, hspent, hreserved, -⟩ := hfrom m' hm'
    rw [hkey, hspent, hreserved]
    exact h.balanced m hm
  · obtain ⟨m, hm, -, hspent, hreserved, hgrown⟩ := hfrom m' hm'
    have hlimit := h.budget hwithin m hm
    rw [AiMonthRow.limit] at hlimit ⊢
    omega
  · cases hp : p m with
    | true =>
        exact ⟨g m, mem_updateWhere.mpr (.inl ⟨m, hm, hp, rfl⟩), (hsame m).1, happroved m hm hp⟩
    | false => exact ⟨m, mem_updateWhere.mpr (.inr ⟨hm, hp⟩), rfl, le_rfl⟩

/-- Settling events keeps the invariant. -/
theorem LedgerInv.updateEvents (h : LedgerInv config ledger) (hsettles : Settles p f) :
    LedgerInv config (Cost.updateEvents p f ledger) ∧
      LedgerStep config ledger (Cost.updateEvents p f ledger) := by
  have hmonths : (Cost.updateEvents p f ledger).months = ledger.months.map fun m =>
      (ledger.events.filter p).foldl (fun m e => m.afterUpdate e (f e)) m := by
    simp only [Cost.updateEvents, afterUpdate_months]
    exact foldl_map (fun (e : AiUsageRow) (m : AiMonthRow) => m.afterUpdate e (f e)) _ _
  have hbalance := fun m (hm : m ∈ ledger.months) => updateEvents_balance (c := 0) (d := 0)
    hsettles ledger.events (h.balanced m hm).1 (h.balanced m hm).2
  have hids : (updateWhere p f ledger.events).map (·.id) = ledger.events.map (·.id) :=
    map_key_updateWhere fun e => congrArg AiUsageIdentity.id (hsettles.identity e)
  have hfrom : ∀ e' ∈ updateWhere p f ledger.events, ∃ e ∈ ledger.events,
      e'.toAiUsageIdentity = e.toAiUsageIdentity := by
    intro e' he'
    rcases mem_updateWhere.mp he' with ⟨e, he, -, rfl⟩ | ⟨he, -⟩
    · exact ⟨e, he, hsettles.identity e⟩
    · exact ⟨e', he, rfl⟩
  have hkept : ∀ e ∈ ledger.events, e.state ≠ .reserved → e ∈ updateWhere p f ledger.events :=
    fun e he hstate => mem_updateWhere.mpr (.inr ⟨he, Bool.eq_false_iff.mpr fun hp =>
      hstate (hsettles.reserved e hp)⟩)
  have hwithin : WithinEstimates (updateWhere p f ledger.events) →
      WithinEstimates ledger.events := by
    intro hwithin e he hsettled
    refine hwithin e (hkept e he fun hstate => ?_) hsettled
    rw [hstate] at hsettled
    cases hsettled
  have hmonth : ∀ m' ∈ (Cost.updateEvents p f ledger).months, ∃ m ∈ ledger.months,
      (ledger.events.filter p).foldl (fun m e => m.afterUpdate e (f e)) m = m' := by
    intro m' hm'
    rw [hmonths] at hm'
    exact List.mem_map.mp hm'
  have hmonth' : ∀ m ∈ ledger.months,
      (ledger.events.filter p).foldl (fun m e => m.afterUpdate e (f e)) m ∈
        (Cost.updateEvents p f ledger).months := by
    intro m hm
    rw [hmonths]
    exact List.mem_map.mpr ⟨m, hm, rfl⟩
  refine ⟨⟨?_, hids ▸ h.ids, fun e' he' => ?_, fun m' hm' => ?_, fun hall m' hm' => ?_⟩,
    ⟨hkept, fun m hm => ?_, fun e' he' _ _ hnew => ?_⟩⟩
  · rw [hmonths, List.map_map]
    have hkeys : ledger.months.map (AiMonthRow.key ∘ fun m =>
        (ledger.events.filter p).foldl (fun m e => m.afterUpdate e (f e)) m) =
          ledger.months.map AiMonthRow.key :=
      List.map_congr_left fun m hm => (hbalance m hm).1
    rw [hkeys]
    exact h.keys
  · obtain ⟨e, he, hsame⟩ := hfrom e' he'
    obtain ⟨m, hm, hkey⟩ := h.known e he
    exact ⟨_, hmonth' m hm, (hbalance m hm).1.trans (hkey.trans
      (congrArg AiUsageIdentity.key hsame).symm)⟩
  · obtain ⟨m, hm, rfl⟩ := hmonth m' hm'
    obtain ⟨hkey, -, hreserved, hspent, -⟩ := hbalance m hm
    rw [hkey]
    exact ⟨hreserved, hspent⟩
  · obtain ⟨m, hm, rfl⟩ := hmonth m' hm'
    obtain ⟨-, happroved, -, -, htotal⟩ := hbalance m hm
    have hlimit := h.budget (hwithin hall) m hm
    rw [AiMonthRow.limit, happroved]
    exact (htotal hall).trans hlimit
  · obtain ⟨hkey, happroved, -⟩ := hbalance m hm
    exact ⟨_, hmonth' m hm, hkey, happroved.ge⟩
  · obtain ⟨e, he, hsame⟩ := hfrom e' he'
    exact absurd (congrArg AiUsageIdentity.id hsame).symm (hnew e he)

/-! ### New events -/

/-- The month has at least the budget that a limit relies on. -/
def Approved (config : AiCostControlConfig) (ledger : Ledger) (key : String × String)
    (maximum : ℕ) : Prop :=
  maximum ≤ config.reviewThresholdMicros ∨
    ∃ m ∈ ledger.months, m.key = key ∧ maximum ≤ m.approvedBudgetMicros

theorem Approved.step (h : Approved config ledger key maximum)
    (hstep : LedgerStep config ledger ledger') : Approved config ledger' key maximum := by
  rcases h with h | ⟨m, hm, hkey, hmaximum⟩
  · exact .inl h
  · obtain ⟨m', hm', hkey', hgrown⟩ := hstep.approved m hm
    exact .inr ⟨m', hm', hkey'.trans hkey, hmaximum.trans hgrown⟩

theorem Approved.months (h : Approved config ledger key maximum)
    (hmonths : ∀ m ∈ ledger.months, m ∈ ledger'.months) : Approved config ledger' key maximum :=
  h.imp_right fun ⟨m, hm, hkey⟩ => ⟨m, hmonths m hm, hkey⟩

/-- A month that is found. -/
theorem Ledger.month_mem {environment monthKey : String} {m : AiMonthRow}
    (h : ledger.month environment monthKey = some m) :
    m ∈ ledger.months ∧ m.key = (environment, monthKey) := lookup_eq_some h

/-- What a new event adds to what is reserved in a month. -/
def addsReserved (row : AiUsageRow) (key : String × String) : ℕ :=
  if row.key = key ∧ row.state = .reserved then row.estimatedCostMicros else 0

theorem reserveAfterInsert_keys (row : AiUsageRow) (months : List AiMonthRow) :
    (reserveAfterInsert row months).map AiMonthRow.key = months.map AiMonthRow.key := by
  rw [reserveAfterInsert]
  split
  · exact map_key_updateWhere fun m => rfl
  · rfl

theorem mem_reserveAfterInsert {months : List AiMonthRow} {m' : AiMonthRow}
    (h : m' ∈ reserveAfterInsert row months) : ∃ m ∈ months, m'.key = m.key ∧
      m'.approvedBudgetMicros = m.approvedBudgetMicros ∧ m'.spentMicros = m.spentMicros ∧
      m'.reservedMicros = m.reservedMicros + addsReserved row m.key := by
  rw [reserveAfterInsert] at h
  by_cases hstate : row.state = .reserved
  · rw [if_pos hstate] at h
    rcases mem_updateWhere.mp h with ⟨m, hm, hkey, rfl⟩ | ⟨hm, hkey⟩
    · have hsame : row.key = m.key := (of_decide_eq_true hkey).symm
      refine ⟨m, hm, rfl, rfl, rfl, ?_⟩
      rw [addsReserved, if_pos ⟨hsame, hstate⟩]
    · have hother : row.key ≠ m'.key := fun hsame => of_decide_eq_false hkey hsame.symm
      refine ⟨m', hm, rfl, rfl, rfl, ?_⟩
      rw [addsReserved, if_neg fun hboth => hother hboth.1]
      rfl
  · rw [if_neg hstate] at h
    refine ⟨m', h, rfl, rfl, rfl, ?_⟩
    rw [addsReserved, if_neg fun hboth => hstate hboth.2]
    rfl

/-- A reservation fits: with it the month is under a limit that the budget covers, and that is
under the alert threshold for the strong tier. -/
def Fits (config : AiCostControlConfig) (ledger : Ledger) (row : AiUsageRow) : Prop :=
  ∃ maximum, Approved config ledger row.key maximum ∧
    (row.selectedTier = .strong → maximum ≤ config.alertThresholdMicros) ∧
    ∀ m ∈ ledger.months, m.key = row.key →
      m.spentMicros + m.reservedMicros + row.estimatedCostMicros ≤ maximum

/-- **A new event keeps the invariant**: it is not settled, and fits when it is a reservation. -/
theorem LedgerInv.insertEvent (h : LedgerInv config ledger)
    (hinsert : Cost.insertEvent row ledger = .ok ledger') (hopen : row.state.isSettled = false)
    (hfits : row.state = .reserved → Fits config ledger row) :
    LedgerInv config ledger' ∧ LedgerStep config ledger ledger' := by
  obtain ⟨_, hfresh, hinsert⟩ := bind_eq_ok.mp hinsert
  obtain ⟨_, hmonth, hinsert⟩ := bind_eq_ok.mp hinsert
  cases hinsert
  have hids : ∀ e ∈ ledger.events, e.id ≠ row.id := by
    simpa using require_eq_ok.mp hfresh
  obtain ⟨month, hmonth⟩ := Option.isSome_iff_exists.mp (require_eq_ok.mp hmonth)
  have hfrom : ∀ m' ∈ reserveAfterInsert row ledger.months, ∃ m ∈ ledger.months,
      m'.key = m.key ∧ m'.approvedBudgetMicros = m.approvedBudgetMicros ∧
        m'.spentMicros = m.spentMicros ∧
        m'.reservedMicros = m.reservedMicros + addsReserved row m.key :=
    fun m' hm' => mem_reserveAfterInsert hm'
  have hto : ∀ m ∈ ledger.months, ∃ m' ∈ reserveAfterInsert row ledger.months,
      m'.key = m.key := by
    intro m hm
    have hmem : m.key ∈ (reserveAfterInsert row ledger.months).map AiMonthRow.key :=
      reserveAfterInsert_keys row ledger.months ▸ List.mem_map.mpr ⟨m, hm, rfl⟩
    exact List.mem_map.mp hmem
  have hknown : ∀ e ∈ ledger.events ++ [row], ∃ m ∈ ledger.months, m.key = e.key := by
    intro e he
    rcases List.mem_append.mp he with he | he
    · exact h.known e he
    · rw [List.mem_singleton.mp he]
      exact ⟨month, Ledger.month_mem hmonth⟩
  refine ⟨⟨?_, ?_, fun e he => ?_, fun m' hm' => ?_, fun hwithin m' hm' => ?_⟩,
    ⟨fun e he _ => List.mem_append_left _ he, fun m hm => ?_, ?_⟩⟩
  · rw [reserveAfterInsert_keys]
    exact h.keys
  · rw [List.map_append, List.map_singleton]
    refine List.Nodup.append h.ids (List.nodup_singleton _) fun id hid hlast => ?_
    obtain ⟨e, he, rfl⟩ := List.mem_map.mp hid
    exact hids e he (List.mem_singleton.mp hlast)
  · obtain ⟨m, hm, hkey⟩ := hknown e he
    obtain ⟨m', hm', hsame⟩ := hto m hm
    exact ⟨m', hm', hsame.trans hkey⟩
  · obtain ⟨m, hm, hkey, -, hspent, hreserved⟩ := hfrom m' hm'
    obtain ⟨hreserved₀, hspent₀⟩ := h.balanced m hm
    rw [hkey, reservedTotal_append, spentTotal_append, hopen]
    refine ⟨by rw [hreserved, hreserved₀, addsReserved], ?_⟩
    rw [hspent, hspent₀]
    simp
  · obtain ⟨m, hm, hkey, happroved, hspent, hreserved⟩ := hfrom m' hm'
    have hlimit := h.budget (fun e he => hwithin e (List.mem_append_left _ he)) m hm
    rw [AiMonthRow.limit, happroved, hspent, hreserved, addsReserved]
    rw [AiMonthRow.limit] at hlimit
    split
    · rename_i hnew
      obtain ⟨maximum, happroved, -, htotal⟩ := hfits hnew.2
      have hunder := htotal m hm hnew.1.symm
      rcases happroved with hreview | ⟨m₀, hm₀, hkey₀, hmaximum⟩
      · omega
      · obtain rfl : m₀ = m := eq_of_key_eq h.keys hm₀ hm (hkey₀.trans hnew.1)
        omega
    · exact hlimit
  · obtain ⟨m', hm', hkey⟩ := hto m hm
    obtain ⟨m₁, hm₁, hkey₁, happroved, -⟩ := hfrom m' hm'
    obtain rfl : m₁ = m := eq_of_key_eq h.keys hm₁ hm (hkey₁.symm.trans hkey)
    exact ⟨m', hm', hkey, happroved.ge⟩
  · intro e he hstate htier hnew m' hm' hkey'
    rcases List.mem_append.mp he with he | he
    · exact absurd rfl (hnew e he)
    · obtain rfl := List.mem_singleton.mp he
      obtain ⟨m, hm, hkey, -, hspent, hreserved⟩ := hfrom m' hm'
      obtain ⟨maximum, -, hstrong, htotal⟩ := hfits hstate
      have hsame : m.key = e.key := hkey.symm.trans hkey'
      have hunder := htotal m hm hsame
      have halert := hstrong htier
      rw [addsReserved, if_pos ⟨hsame.symm, hstate⟩] at hreserved
      omega

/-! ### Operations -/

/-- The limits that an operation keeps to, by the ledger that it finds. -/
def LedgerOp.Allowed (config : AiCostControlConfig) (ledger : Ledger) : LedgerOp → Prop
  | .recordEvent defaultApproved event =>
      defaultApproved = config.reviewThresholdMicros ∧ event.state.isSettled = false
  | .tryReserve reservation maximumTotal defaultApproved =>
      defaultApproved = config.reviewThresholdMicros ∧
        Approved config ledger reservation.key maximumTotal ∧
        (reservation.selectedTier = .strong → maximumTotal ≤ config.alertThresholdMicros)
  | .approveBudget defaultApproved _ => defaultApproved = config.reviewThresholdMicros
  | _ => True

/-- What is allowed stays allowed. -/
theorem LedgerOp.Allowed.step (h : op.Allowed config ledger)
    (hstep : LedgerStep config ledger ledger') : op.Allowed config ledger' := by
  cases op with
  | tryReserve reservation maximumTotal defaultApproved =>
      obtain ⟨hdefault, happroved, hstrong⟩ := h
      exact ⟨hdefault, happroved.step hstep, hstrong⟩
  | _ => exact h

/-- The settling of reservations with given ids. -/
theorem settles_isReservation (reservationId : String)
    (hidentity : ∀ e, (f e).toAiUsageIdentity = e.toAiUsageIdentity)
    (hestimate : ∀ e, (f e).estimatedCostMicros = e.estimatedCostMicros)
    (hstate : ∀ e, e.state = .reserved → (f e).state = .reserved ∨ (f e).state.isSettled = true) :
    Settles (isReservation reservationId) f where
  reserved e hp := by
    have hboth : e.id = reservationId ∧ e.state = .reserved := by simpa [isReservation] using hp
    exact hboth.2
  identity := hidentity
  estimate := hestimate
  state e hp := by
    have hboth : e.id = reservationId ∧ e.state = .reserved := by simpa [isReservation] using hp
    exact hstate e hboth.2

/-- The invariant is kept, by a step that is allowed. -/
abbrev Kept (config : AiCostControlConfig) (ledger ledger' : Ledger) : Prop :=
  LedgerInv config ledger' ∧ LedgerStep config ledger ledger'

theorem reapExpiredReservations_keeps (h : LedgerInv config ledger) (now : ℤ) :
    Kept config ledger (reapExpiredReservations now ledger) := by
  refine h.updateEvents ⟨fun e hp => ?_, fun e => rfl, fun e => rfl, fun e _ => .inr rfl⟩
  exact of_decide_eq_true (Bool.and_eq_true_iff.mp hp).1

theorem recordEvent_keeps (h : LedgerInv config ledger) {event : AiUsageEvent}
    (hopen : event.state.isSettled = false)
    (hrecord : recordEvent config.reviewThresholdMicros event ledger = .ok ledger') :
    Kept config ledger ledger' := by
  obtain ⟨h₁, hevents, hmonths⟩ :=
    h.ensureMonth event.environment event.monthKey event.createdAt
  obtain ⟨hinv, hstep⟩ := h₁.insertEvent hrecord hopen
    fun hreserved => absurd hreserved event.not_reserved
  exact ⟨hinv, hstep.of_months hevents hmonths⟩

theorem tryReserve_keeps (h : LedgerInv config ledger) {reservation : AiUsageReservation}
    {maximumTotal : ℕ} (happroved : Approved config ledger reservation.key maximumTotal)
    (hstrong : reservation.selectedTier = .strong → maximumTotal ≤ config.alertThresholdMicros)
    (hreserve : tryReserve reservation maximumTotal config.reviewThresholdMicros ledger =
      .ok (inserted, ledger')) : Kept config ledger ledger' := by
  obtain ⟨h₁, hevents, hmonths⟩ :=
    h.ensureMonth reservation.environment reservation.monthKey reservation.createdAt
  rw [tryReserve] at hreserve
  generalize Cost.ensureMonth reservation.environment reservation.monthKey reservation.createdAt
    config.reviewThresholdMicros ledger = ledger₁ at h₁ hevents hmonths hreserve
  split at hreserve
  · rename_i hfits
    obtain ⟨ledger₂, hinsert, hreserve⟩ := bind_eq_ok.mp hreserve
    cases hreserve
    obtain ⟨month, hmonth, hunder⟩ := (Option.any_eq_true _ _).mp hfits
    obtain ⟨hmem, hkey⟩ := Ledger.month_mem hmonth
    obtain ⟨hinv, hstep⟩ := h₁.insertEvent hinsert rfl fun _ => by
      refine ⟨maximumTotal, ?_, hstrong, fun m hm hsame => ?_⟩
      · exact happroved.months hmonths
      · obtain rfl : m = month := eq_of_key_eq h₁.keys hm hmem (hsame.trans hkey.symm)
        exact of_decide_eq_true hunder
    exact ⟨hinv, hstep.of_months hevents hmonths⟩
  · cases hreserve
    exact ⟨h₁, (LedgerStep.refl config _).of_months hevents hmonths⟩

theorem completeReservation_keeps (h : LedgerInv config ledger) (reservationId : String)
    (actual : AiObservedUsage) (alertThreshold : ℕ) (completedAt : ℤ) : Kept config ledger
      (completeReservation reservationId actual alertThreshold completedAt ledger).2 := by
  obtain ⟨h₁, hstep₁⟩ := h.updateEvents (settles_isReservation reservationId
    (f := fun e => { e with
      state := .completed
      actualCostMicros := actual.actualCostMicros
      promptTokens := actual.promptTokens
      completionTokens := actual.completionTokens
      completedAt := some completedAt }) (fun _ => rfl) (fun _ => rfl) fun _ _ => .inr rfl)
  have h₂ : Kept config _
      (completeReservation reservationId actual alertThreshold completedAt ledger).2 :=
    h₁.touch (g := fun m => { m with
      alertEmittedAt := some completedAt
      updatedAt := completedAt }) (fun _ => ⟨rfl, rfl, rfl⟩) (fun _ _ _ => le_rfl) ledger.reviews
  obtain ⟨h₂, hstep₂⟩ := h₂
  exact ⟨h₂, hstep₁.trans hstep₂ (map_key_updateWhere fun _ => rfl)⟩

theorem markReservationStarted_keeps (h : LedgerInv config ledger) (reservationId : String)
    (startedAt : ℤ) :
    Kept config ledger (markReservationStarted reservationId startedAt ledger).2 :=
  h.updateEvents (settles_isReservation _ (fun _ => rfl) (fun _ => rfl) fun _ hstate => .inl hstate)

theorem failReservation_keeps (h : LedgerInv config ledger) (reservationId : String)
    (failure : AiUsageFailure) :
    Kept config ledger (failReservation reservationId failure ledger).2 :=
  h.updateEvents (settles_isReservation _ (fun _ => rfl) (fun _ => rfl) fun _ _ => .inr rfl)

theorem approveBudget_keeps (h : LedgerInv config ledger) {input : AiBudgetApproval}
    (happrove : approveBudget config.reviewThresholdMicros input ledger =
      .ok (inserted, ledger')) : Kept config ledger ledger' := by
  obtain ⟨h₁, hevents, hmonths⟩ :=
    h.ensureMonth input.environment input.monthKey input.reviewedAt
  rw [approveBudget] at happrove
  generalize Cost.ensureMonth input.environment input.monthKey input.reviewedAt
    config.reviewThresholdMicros ledger = ledger₁ at h₁ hevents hmonths happrove
  have hsame : Kept config ledger ledger₁ :=
    ⟨h₁, (LedgerStep.refl config ledger₁).of_months hevents hmonths⟩
  cases hmonth : ledger₁.month input.environment input.monthKey with
  | none =>
      simp only [hmonth] at happrove
      cases happrove
      exact hsame
  | some month =>
      simp only [hmonth] at happrove
      split at happrove
      · rename_i hraises
        obtain ⟨_, _, happrove⟩ := bind_eq_ok.mp happrove
        cases happrove
        obtain ⟨hmem, hkey⟩ := Ledger.month_mem hmonth
        have hgrown : ∀ m ∈ ledger₁.months,
            decide (m.key = (input.environment, input.monthKey)) = true →
              m.approvedBudgetMicros ≤ input.newApprovedBudgetMicros := by
          intro m hm hsame
          obtain rfl : m = month :=
            eq_of_key_eq h₁.keys hm hmem ((of_decide_eq_true hsame).trans hkey.symm)
          exact le_of_lt (of_decide_eq_true (Bool.and_eq_true_iff.mp hraises).1)
        have h₂ := h₁.touch (g := fun m => { m with
            approvedBudgetMicros := input.newApprovedBudgetMicros
            updatedAt := input.reviewedAt }) (fun _ => ⟨rfl, rfl, rfl⟩) hgrown
        exact ⟨(h₂ _).1, (h₂ _).2.of_months hevents hmonths⟩
      · cases happrove
        exact hsame

/-- **Every operation keeps the invariant**, whether its caller learns of it or not. -/
theorem LedgerOp.exec_keeps {answer : op.Answer} (h : LedgerInv config ledger)
    (hallowed : op.Allowed config ledger) (hexec : op.Exec ledger answer ledger') :
    Kept config ledger ledger' := by
  have hperform : ∀ result, op.perform ledger = .ok (result, ledger') →
      Kept config ledger ledger' := by
    intro result hperform
    cases op with
    | getMonth environment monthKey =>
        cases hperform
        exact ⟨h, .refl config _⟩
    | monthForEvent eventId =>
        cases hperform
        exact ⟨h, .refl config _⟩
    | reapExpiredReservations now =>
        cases hperform
        exact reapExpiredReservations_keeps h now
    | recordEvent defaultApproved event =>
        obtain ⟨rfl, hopen⟩ := hallowed
        rw [perform] at hperform
        cases hrecord : Cost.recordEvent config.reviewThresholdMicros event ledger with
        | error e =>
            rw [hrecord] at hperform
            cases hperform
        | ok ledger₁ =>
            rw [hrecord] at hperform
            cases hperform
            exact recordEvent_keeps h hopen hrecord
    | tryReserve reservation maximumTotal defaultApproved =>
        obtain ⟨rfl, happroved, hstrong⟩ := hallowed
        exact tryReserve_keeps h happroved hstrong hperform
    | completeReservation reservationId actual alertThreshold completedAt =>
        cases hperform
        exact completeReservation_keeps h reservationId actual alertThreshold completedAt
    | markReservationStarted reservationId startedAt =>
        cases hperform
        exact markReservationStarted_keeps h reservationId startedAt
    | failReservation reservationId failure =>
        cases hperform
        exact failReservation_keeps h reservationId failure
    | approveBudget defaultApproved input =>
        cases hallowed
        exact approveBudget_keeps h hperform
  cases hexec with
  | done _ result hresult => exact hperform result hresult
  | unseen _ result e hresult => exact hperform result hresult
  | failed e => exact ⟨h, .refl config _⟩

end MailPortal.Cost
