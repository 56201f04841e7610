import MailPortal.Lib.Concurrent
import MailPortal.Lib.Failure
import MailPortal.Lib.Table
import MailPortal.Platform.JavaScript

/-!
# The AI Usage Ledger

The tables of AI usage with their triggers, and the statements and batches of
`D1AiCostControlStore` as operations on them. The database runs each of them atomically: it
succeeds, fails and changes nothing, or succeeds without the caller learning of it
(`LedgerOp.Exec`).

Amounts are integers without a bound. `MAX(0, a - b)` is subtraction of natural numbers.
-/

namespace MailPortal.Cost

open Failure Table

inductive AiModelTier
  | cheap
  | strong
  deriving DecidableEq

inductive AiRequestedTier
  | auto
  | cheap
  | strong
  deriving DecidableEq

/-- The states of a use. -/
inductive AiUsageState
  | reserved
  | completed
  | failed
  | blocked
  | cacheHit
  | deterministic
  deriving DecidableEq

/-- The states of a reservation that has been charged. -/
def AiUsageState.isSettled : AiUsageState → Bool
  | .completed => true
  | .failed => true
  | _ => false

/-- A row of `ai_usage_months`. -/
structure AiMonthRow where
  environment : String
  monthKey : String
  spentMicros : ℕ
  reservedMicros : ℕ
  approvedBudgetMicros : ℕ
  alertEmittedAt : Option ℤ
  updatedAt : ℤ
  deriving DecidableEq

/-- The primary key of months. -/
def AiMonthRow.key (month : AiMonthRow) : String × String := (month.environment, month.monthKey)

/-- What is known of a use from its start. -/
structure AiUsageIdentity where
  id : String
  environment : String
  monthKey : String
  feature : String
  actorUserId : Option String
  mailboxId : Option String
  requestedTier : AiRequestedTier
  selectedTier : AiModelTier
  model : String
  cacheKey : Option String
  escalationReason : Option String
  createdAt : ℤ
  deriving DecidableEq

/-- The month of a use. -/
def AiUsageIdentity.key (identity : AiUsageIdentity) : String × String :=
  (identity.environment, identity.monthKey)

/-- A row of `ai_usage_events`. -/
structure AiUsageRow extends AiUsageIdentity where
  state : AiUsageState
  estimatedCostMicros : ℕ
  reservationLimitMicros : Option ℕ
  reservationExpiresAt : Option ℤ
  providerStartedAt : Option ℤ
  actualCostMicros : ℕ
  promptTokens : ℕ
  completionTokens : ℕ
  errorCode : Option String
  completedAt : Option ℤ
  deriving DecidableEq

/-- A row of `ai_budget_reviews`. -/
structure AiBudgetReviewRow where
  id : String
  environment : String
  monthKey : String
  previousBudgetMicros : ℕ
  approvedBudgetMicros : ℕ
  reviewedBy : String
  reason : String
  reviewedAt : ℤ
  deriving DecidableEq

/-- The tables of the ledger. -/
structure Ledger where
  months : List AiMonthRow
  events : List AiUsageRow
  reviews : List AiBudgetReviewRow
  deriving DecidableEq

def Ledger.empty : Ledger := ⟨[], [], []⟩

/-- `AiMonthLedger`. -/
structure AiMonthLedger where
  environment : String
  monthKey : String
  spentMicros : ℕ
  reservedMicros : ℕ
  approvedBudgetMicros : ℕ
  alertEmittedAt : Option ℤ
  deriving DecidableEq

/-- `mapMonth`. -/
def mapMonth (row : AiMonthRow) : AiMonthLedger where
  environment := row.environment
  monthKey := row.monthKey
  spentMicros := row.spentMicros
  reservedMicros := row.reservedMicros
  approvedBudgetMicros := row.approvedBudgetMicros
  alertEmittedAt := row.alertEmittedAt

/-- Why the ledger fails. -/
inductive LedgerError
  /-- The database cannot be reached, or does not answer. -/
  | unavailable
  /-- A key or a reference is violated. -/
  | constraint
  /-- What the module itself throws. -/
  | thrown (message : String)
  deriving DecidableEq

/-! ### Triggers -/

/-- `ai_usage_reserve_after_insert`. -/
def reserveAfterInsert (new : AiUsageRow) (months : List AiMonthRow) : List AiMonthRow :=
  if new.state = .reserved then
    updateWhere (fun m => m.key = new.key) (fun m => { m with
      reservedMicros := m.reservedMicros + new.estimatedCostMicros
      updatedAt := new.createdAt }) months
  else months

/-- The month of a reservation that is settled. -/
def AiMonthRow.settle (old new : AiUsageRow) (month : AiMonthRow) : AiMonthRow :=
  { month with
    reservedMicros := month.reservedMicros - old.estimatedCostMicros
    spentMicros := month.spentMicros + new.actualCostMicros
    updatedAt := new.completedAt.getD new.createdAt }

/-- The triggers on a reservation that gets a final state. -/
def settleAfterUpdate (state : AiUsageState) (old new : AiUsageRow) (months : List AiMonthRow) :
    List AiMonthRow :=
  if old.state = .reserved && new.state = state then
    updateWhere (fun m => m.key = new.key) (AiMonthRow.settle old new) months
  else months

/-- `ai_usage_complete_after_update`. -/
def completeAfterUpdate : AiUsageRow → AiUsageRow → List AiMonthRow → List AiMonthRow :=
  settleAfterUpdate .completed

/-- `ai_usage_fail_after_update`. -/
def failAfterUpdate : AiUsageRow → AiUsageRow → List AiMonthRow → List AiMonthRow :=
  settleAfterUpdate .failed

/-- `ai_budget_review_after_insert`. -/
def reviewAfterInsert (new : AiBudgetReviewRow) (months : List AiMonthRow) : List AiMonthRow :=
  updateWhere (fun m => m.key = (new.environment, new.monthKey)) (fun m => { m with
    approvedBudgetMicros := new.approvedBudgetMicros
    updatedAt := new.reviewedAt }) months

/-! ### Statements -/

/-- The month with a key. -/
def Ledger.month (ledger : Ledger) (environment monthKey : String) : Option AiMonthRow :=
  lookup AiMonthRow.key (environment, monthKey) ledger.months

/-- `#ensureMonth`. -/
def ensureMonth (environment monthKey : String) (updatedAt : ℤ) (approvedBudgetMicros : ℕ)
    (ledger : Ledger) : Ledger :=
  match ledger.month environment monthKey with
  | some _ => ledger
  | none =>
      { ledger with
        months := ledger.months ++
          [⟨environment, monthKey, 0, 0, approvedBudgetMicros, none, updatedAt⟩] }

/-- `INSERT INTO ai_usage_events`. -/
def insertEvent (row : AiUsageRow) (ledger : Ledger) : Except LedgerError Ledger := do
  require (ledger.events.all (·.id ≠ row.id)) .constraint
  require (ledger.month row.environment row.monthKey).isSome .constraint
  .ok { ledger with
    months := reserveAfterInsert row ledger.months
    events := ledger.events ++ [row] }

/-- `UPDATE ai_usage_events SET … WHERE …`: the triggers fire for each row. -/
def updateEvents (p : AiUsageRow → Bool) (f : AiUsageRow → AiUsageRow) (ledger : Ledger) :
    Ledger :=
  { ledger with
    months := (ledger.events.filter p).foldl (fun months old =>
      failAfterUpdate old (f old) (completeAfterUpdate old (f old) months)) ledger.months
    events := updateWhere p f ledger.events }

/-! ### Operations -/

/-- `reapExpiredReservations`. -/
def reapExpiredReservations (now : ℤ) (ledger : Ledger) : Ledger :=
  updateEvents
    (fun e => e.state = .reserved && (e.reservationExpiresAt.map fun t => decide (t ≤ now)).getD
      false)
    (fun e => { e with
      state := .failed
      errorCode := some "reservation_expired"
      actualCostMicros := if e.providerStartedAt.isNone then 0 else e.estimatedCostMicros
      completedAt := some now }) ledger

/-- `AiUsageEvent`. -/
structure AiUsageEvent extends AiUsageIdentity where
  state : AiUsageState
  estimatedCostMicros : ℕ
  actualCostMicros : ℕ
  promptTokens : ℕ
  completionTokens : ℕ
  errorCode : Option String
  /-- `Exclude<AiUsageState, "reserved">`. -/
  not_reserved : state ≠ .reserved

/-- `recordEvent`. -/
def recordEvent (defaultApprovedBudgetMicros : ℕ) (event : AiUsageEvent) (ledger : Ledger) :
    Except LedgerError Ledger :=
  insertEvent
    { event.toAiUsageIdentity with
      state := event.state
      estimatedCostMicros := event.estimatedCostMicros
      reservationLimitMicros := none
      reservationExpiresAt := none
      providerStartedAt := none
      actualCostMicros := event.actualCostMicros
      promptTokens := event.promptTokens
      completionTokens := event.completionTokens
      errorCode := event.errorCode
      completedAt := some event.createdAt }
    (ensureMonth event.environment event.monthKey event.createdAt defaultApprovedBudgetMicros
      ledger)

/-- `AiUsageReservation`. -/
structure AiUsageReservation extends AiUsageIdentity where
  estimatedCostMicros : ℕ
  expiresAt : ℤ
  deriving DecidableEq

/-- The row of a reservation. -/
def AiUsageReservation.row (reservation : AiUsageReservation) (maximumTotalMicros : ℕ) :
    AiUsageRow :=
  { reservation.toAiUsageIdentity with
    state := .reserved
    estimatedCostMicros := reservation.estimatedCostMicros
    reservationLimitMicros := some maximumTotalMicros
    reservationExpiresAt := some reservation.expiresAt
    providerStartedAt := none
    actualCostMicros := 0
    promptTokens := 0
    completionTokens := 0
    errorCode := none
    completedAt := none }

/-- The batch of `tryReserve`: whether a row was inserted. -/
def tryReserve (reservation : AiUsageReservation) (maximumTotalMicros : ℕ)
    (defaultApprovedBudgetMicros : ℕ) (ledger : Ledger) : Except LedgerError (Bool × Ledger) := do
  let ledger := ensureMonth reservation.environment reservation.monthKey reservation.createdAt
    defaultApprovedBudgetMicros ledger
  let fits := (ledger.month reservation.environment reservation.monthKey).any fun m =>
    m.spentMicros + m.reservedMicros + reservation.estimatedCostMicros ≤ maximumTotalMicros
  if fits then do
    let ledger ← insertEvent (reservation.row maximumTotalMicros) ledger
    .ok (true, ledger)
  else .ok (false, ledger)

/-- `WHERE id = ? AND state = 'reserved'`. -/
def isReservation (reservationId : String) (event : AiUsageRow) : Bool :=
  event.id = reservationId && event.state = .reserved

/-- What was observed of a use. -/
structure AiObservedUsage where
  actualCostMicros : ℕ
  promptTokens : ℕ
  completionTokens : ℕ
  deriving DecidableEq

/-- The batch of `completeReservation`: whether it was completed, and whether to alert. -/
def completeReservation (reservationId : String) (actual : AiObservedUsage)
    (alertThresholdMicros : ℕ) (completedAt : ℤ) (ledger : Ledger) : (Bool × Bool) × Ledger :=
  let completed := ledger.events.countP (isReservation reservationId) = 1
  let ledger := updateEvents (isReservation reservationId) (fun e => { e with
    state := .completed
    actualCostMicros := actual.actualCostMicros
    promptTokens := actual.promptTokens
    completionTokens := actual.completionTokens
    completedAt := some completedAt }) ledger
  let alerts (m : AiMonthRow) : Bool := m.alertEmittedAt.isNone &&
    alertThresholdMicros ≤ m.spentMicros &&
    (lookup (·.id) reservationId ledger.events).any fun e => m.key = e.key
  ((completed, ledger.months.countP alerts = 1), { ledger with
    months := updateWhere alerts (fun m => { m with
      alertEmittedAt := some completedAt
      updatedAt := completedAt }) ledger.months })

/-- `markReservationStarted`. -/
def markReservationStarted (reservationId : String) (startedAt : ℤ) (ledger : Ledger) :
    Bool × Ledger :=
  (ledger.events.countP (isReservation reservationId) = 1,
    updateEvents (isReservation reservationId) (fun e => { e with
      providerStartedAt := e.providerStartedAt.orElse fun _ => some startedAt }) ledger)

/-- `charge: "auto" | "observed"`. -/
inductive AiFailureCharge
  | auto
  | observed
  deriving DecidableEq

/-- `AiUsageFailure`. -/
structure AiUsageFailure where
  errorCode : Option String
  failedAt : ℤ
  charge : AiFailureCharge
  actualCostMicros : Option ℕ
  promptTokens : ℕ
  completionTokens : ℕ
  deriving DecidableEq

/-- `failReservation`. -/
def failReservation (reservationId : String) (failure : AiUsageFailure) (ledger : Ledger) :
    Bool × Ledger :=
  (ledger.events.countP (isReservation reservationId) = 1,
    updateEvents (isReservation reservationId) (fun e => { e with
      state := .failed
      errorCode := failure.errorCode
      actualCostMicros := match failure.charge with
        | .observed => failure.actualCostMicros.getD 0
        | .auto => if e.providerStartedAt.isSome then e.estimatedCostMicros else 0
      promptTokens := failure.promptTokens
      completionTokens := failure.completionTokens
      completedAt := some failure.failedAt }) ledger)

/-- What `approveBudget` is asked for. -/
structure AiBudgetApproval where
  environment : String
  monthKey : String
  newApprovedBudgetMicros : ℕ
  reviewedBy : String
  reason : String
  reviewedAt : ℤ
  reviewId : String
  deriving DecidableEq

/-- The batch of `approveBudget`: whether a review was inserted. -/
def approveBudget (defaultApprovedBudgetMicros : ℕ) (input : AiBudgetApproval) (ledger : Ledger) :
    Except LedgerError (Bool × Ledger) := do
  let ledger := ensureMonth input.environment input.monthKey input.reviewedAt
    defaultApprovedBudgetMicros ledger
  match ledger.month input.environment input.monthKey with
  | none => .ok (false, ledger)
  | some month =>
      if month.approvedBudgetMicros < input.newApprovedBudgetMicros &&
          month.spentMicros + month.reservedMicros < input.newApprovedBudgetMicros then do
        require (ledger.reviews.all (·.id ≠ input.reviewId)) .constraint
        let review : AiBudgetReviewRow := ⟨input.reviewId, input.environment, input.monthKey,
          month.approvedBudgetMicros, input.newApprovedBudgetMicros, input.reviewedBy,
          input.reason, input.reviewedAt⟩
        .ok (true, { ledger with
          months := reviewAfterInsert review ledger.months
          reviews := ledger.reviews ++ [review] })
      else .ok (false, ledger)

/-- `#monthForEvent`. -/
def monthForEvent (eventId : String) (ledger : Ledger) : Option AiMonthRow :=
  (lookup (·.id) eventId ledger.events).bind fun e => ledger.month e.environment e.monthKey

/-- What the database is asked, one statement or one batch at a time. -/
inductive LedgerOp
  | getMonth (environment monthKey : String)
  | monthForEvent (eventId : String)
  | reapExpiredReservations (now : ℤ)
  | recordEvent (defaultApprovedBudgetMicros : ℕ) (event : AiUsageEvent)
  | tryReserve (reservation : AiUsageReservation) (maximumTotalMicros : ℕ)
      (defaultApprovedBudgetMicros : ℕ)
  | completeReservation (reservationId : String) (actual : AiObservedUsage)
      (alertThresholdMicros : ℕ) (completedAt : ℤ)
  | markReservationStarted (reservationId : String) (startedAt : ℤ)
  | failReservation (reservationId : String) (failure : AiUsageFailure)
  | approveBudget (defaultApprovedBudgetMicros : ℕ) (input : AiBudgetApproval)

/-- What the database returns. -/
abbrev LedgerOp.Result : LedgerOp → Type
  | .getMonth .. => Option AiMonthLedger
  | .monthForEvent _ => Option AiMonthLedger
  | .reapExpiredReservations _ => Unit
  | .recordEvent .. => Unit
  | .tryReserve .. => Bool
  | .completeReservation .. => Bool × Bool
  | .markReservationStarted .. => Bool
  | .failReservation .. => Bool
  | .approveBudget .. => Bool

/-- What a caller learns of it. -/
abbrev LedgerOp.Answer (op : LedgerOp) : Type := Except LedgerError op.Result

/-- What the database does. -/
def LedgerOp.perform (ledger : Ledger) : (op : LedgerOp) → Except LedgerError (op.Result × Ledger)
  | .getMonth environment monthKey => .ok ((ledger.month environment monthKey).map mapMonth, ledger)
  | .monthForEvent eventId => .ok ((Cost.monthForEvent eventId ledger).map mapMonth, ledger)
  | .reapExpiredReservations now => .ok ((), Cost.reapExpiredReservations now ledger)
  | .recordEvent defaultApproved event =>
      (Cost.recordEvent defaultApproved event ledger).map fun ledger => ((), ledger)
  | .tryReserve reservation maximumTotal defaultApproved =>
      Cost.tryReserve reservation maximumTotal defaultApproved ledger
  | .completeReservation reservationId actual alertThreshold completedAt =>
      .ok (Cost.completeReservation reservationId actual alertThreshold completedAt ledger)
  | .markReservationStarted reservationId startedAt =>
      .ok (Cost.markReservationStarted reservationId startedAt ledger)
  | .failReservation reservationId failure =>
      .ok (Cost.failReservation reservationId failure ledger)
  | .approveBudget defaultApproved input => Cost.approveBudget defaultApproved input ledger

/-- What may happen when the database is asked. An error of which the caller learns says nothing
about what was done. -/
inductive LedgerOp.Exec : (op : LedgerOp) → Ledger → op.Answer → Ledger → Prop
  | done (op : LedgerOp) (ledger ledger' : Ledger) (result : op.Result)
      (h : op.perform ledger = .ok (result, ledger')) : Exec op ledger (.ok result) ledger'
  | unseen (op : LedgerOp) (ledger ledger' : Ledger) (result : op.Result) (e : LedgerError)
      (h : op.perform ledger = .ok (result, ledger')) : Exec op ledger (.error e) ledger'
  | failed (op : LedgerOp) (ledger : Ledger) (e : LedgerError) : Exec op ledger (.error e) ledger

end MailPortal.Cost
