import MailPortal.Lib.Failure
import MailPortal.Platform.JavaScript
import MailPortal.Recovery.Tables

/-!
# Sending a Recovery Mail

A worker leases a mail of the outbox, checks that its token is still good, and crosses the fence:
in one batch the row becomes `dispatching` and an attempt is written under the lease token. Then it
talks to the provider, outside the database, and reports: accepted, or failed, perhaps with an
unknown end. A lease that runs out while the row is dispatching is settled as ambiguous by whoever
finds it. Between the reads and the batches of one call anything may happen; the tables that a
decision was made from are an argument `seen`.

Main definitions:

* `leaseDelivery`, `preflight`, `finishLeasedDelivery` : before the fence.
* `fenceDispatch`, `fenceDecision` : the fence, and what is done when it does not open.
* `markAccepted`, `settleFailure` : after the fence.
-/

namespace MailPortal.Recovery

open Failure Table

/-! ### Limits -/

def preflightLeaseMs : ℤ := 30000

def dispatchLeaseMs : ℤ := 45000

def minimumValidityMs : ℤ := 60000

def maxBackoffMs : ℤ := 60 * 60000

/-- What a worker holds of a mail it has leased. -/
structure LeasedDelivery where
  id : String
  tokenId : String
  leaseToken : String
  attemptCount : ℕ
deriving DecidableEq

/-! ### Leases -/

/-- The mail may be leased: it waits and is due, or its lease has ended. -/
def DeliveryRow.due (row : DeliveryRow) (now : ℤ) : Bool :=
  decide (row.state = .pending) && decide (row.nextAttemptAt ≤ now) ||
    decide (row.state = .leased) && row.leaseExpiresAt.any (fun expiresAt => expiresAt ≤ now)

/-- A candidate is claimed by an update that checks it again. -/
def leaseDelivery (id leaseToken : String) (now : ℤ) (t : RecoveryTables) : ℕ × RecoveryTables :=
  let p := fun row : DeliveryRow => decide (row.id = id) && row.due now
  (t.outbox.countP p,
    { t with
      outbox := updateWhere p (fun row =>
        { row with
          state := .leased
          leaseToken := some leaseToken
          leaseExpiresAt := some (now + preflightLeaseMs)
          updatedAt := now }) t.outbox })

/-- The row is leased under the token. -/
def DeliveryRow.leasedBy (row : DeliveryRow) (id leaseToken : String) : Bool :=
  decide (row.id = id) && decide (row.state = .leased) &&
    decide (row.leaseToken = some leaseToken)

/-- A leased mail that is not sent: cancelled, expired, or parked with its secret. -/
def DeliveryRow.finished (row : DeliveryRow) (state : DeliveryState) (errorCode : String)
    (now : ℤ) : DeliveryRow :=
  { row with
    state := state
    leaseToken := none
    leaseExpiresAt := none
    payload := if state = .parked then row.payload else none
    lastErrorCode := some errorCode
    completedAt := some now
    updatedAt := now
    cancellationReason := if state = .cancelled then some errorCode else row.cancellationReason
    cancellationObservedAt := if state = .cancelled then some now
      else row.cancellationObservedAt }

/-- The states in which a mail is finished before the fence. -/
inductive FinishState where
  | cancelled
  | expired
  | parked
deriving DecidableEq

def FinishState.state : FinishState → DeliveryState
  | cancelled => .cancelled
  | expired => .expired
  | parked => .parked

def finishLeasedDelivery (id leaseToken : String) (state : FinishState) (errorCode : String)
    (now : ℤ) (t : RecoveryTables) : ℕ × RecoveryTables :=
  let p := fun row : DeliveryRow => row.leasedBy id leaseToken
  (t.outbox.countP p,
    { t with
      outbox := updateWhere p (fun row => row.finished state.state errorCode now) t.outbox })

/-! ### What a worker reads -/

/-- A mail joined with its token and the user of that. -/
structure JoinedDelivery where
  row : DeliveryRow
  token : Option RecoveryToken
  user : Option User

def joinedDelivery (id : String) (t : RecoveryTables) : Option JoinedDelivery :=
  (t.delivery id).map fun row =>
    let token := t.token row.tokenId
    ⟨row, token, token.bind fun token => t.user token.userId⟩

/-- The user of the token may still use it. -/
def JoinedDelivery.eligible (joined : JoinedDelivery) : Bool :=
  match joined.token, joined.user with
  | some token, some u => u.eligible token.purpose
  | _, _ => false

/-- The token is good for the minimum of time. -/
def RecoveryToken.outlasts (token : RecoveryToken) (now : ℤ) : Bool :=
  decide (now + minimumValidityMs < token.expiresAt)

/-- What is decided before a mail is sent. -/
inductive Preflight where
  | ready
  | lost
  | finish (state : FinishState) (errorCode : String)
deriving DecidableEq

/-- `preflightCredentialRecoveryDelivery`, up to the update that finishes the mail. -/
def preflight (delivery : LeasedDelivery) (now : ℤ) (seen : RecoveryTables) : Preflight :=
  match joinedDelivery delivery.id seen with
  | some ⟨row, some token, some u⟩ =>
      if row.tokenId ≠ delivery.tokenId ∨ row.state ≠ .leased ∨
          row.leaseToken ≠ some delivery.leaseToken ∨
          row.leaseExpiresAt.all (fun expiresAt => expiresAt ≤ now) = true then .lost
      else if token.consumedAt ≠ none ∨ u.eligible token.purpose = false then
        .finish .cancelled "TOKEN_INVALID"
      else if token.outlasts now = false then .finish .expired "TOKEN_EXPIRED"
      else .ready
  | _ => .lost

/-- The mail is finished as the preflight has decided. -/
def preflightDelivery (delivery : LeasedDelivery) (now : ℤ) (seen t : RecoveryTables) :
    RecoveryTables :=
  match preflight delivery now seen with
  | .finish state errorCode =>
      (finishLeasedDelivery delivery.id delivery.leaseToken state errorCode now t).2
  | _ => t

/-! ### The fence -/

/-- The mail passes the fence: its lease holds, recovery is switched on, and its token is open,
valid for long enough and of an eligible user. -/
def DeliveryRow.passes (row : DeliveryRow) (delivery : LeasedDelivery) (payloadExpiresAt now : ℤ)
    (t : RecoveryTables) : Bool :=
  row.leasedBy delivery.id delivery.leaseToken && decide (row.tokenId = delivery.tokenId) &&
    row.leaseExpiresAt.any (fun expiresAt => now < expiresAt) && t.enabled &&
    t.tokens.any fun token => decide (token.id = row.tokenId) && token.consumedAt.isNone &&
      decide (token.expiresAt = payloadExpiresAt) && token.outlasts now &&
      t.users.any fun u => decide (u.id = token.userId) && u.eligible token.purpose

def DeliveryRow.dispatched (row : DeliveryRow) (now : ℤ) : DeliveryRow :=
  { row with
    state := .dispatching
    dispatchStartedAt := some now
    leaseExpiresAt := some (now + dispatchLeaseMs)
    updatedAt := now }

/-- The row of which an attempt is written. -/
def DeliveryRow.dispatching (row : DeliveryRow) (delivery : LeasedDelivery) (now : ℤ) : Bool :=
  decide (row.id = delivery.id) && decide (row.state = .dispatching) &&
    decide (row.leaseToken = some delivery.leaseToken) &&
    decide (row.dispatchStartedAt = some now)

def dispatchAttempt (delivery : LeasedDelivery) (now : ℤ) (row : DeliveryRow) :
    DeliveryAttempt where
  attemptId := delivery.leaseToken
  outboxId := row.id
  state := .dispatching
  providerMessageId := none
  dispatchStartedAt := row.dispatchStartedAt
  resolvedAt := none
  createdAt := now
  updatedAt := now

/-- `INSERT INTO credential_recovery_delivery_attempts`: the ids of the attempts are new. -/
def insertAttempts (attempts : List DeliveryAttempt) (t : RecoveryTables) :
    Except String RecoveryTables := do
  require (decide ((t.attempts ++ attempts).map DeliveryAttempt.attemptId).Nodup)
    "UNIQUE constraint failed"
  return { t with attempts := t.attempts ++ attempts }

/-- The batch of the fence, with the counts of its two statements. -/
def fenceDispatch (delivery : LeasedDelivery) (payloadExpiresAt now : ℤ) (t : RecoveryTables) :
    Except String ((ℕ × ℕ) × RecoveryTables) := do
  let p := fun row : DeliveryRow => row.passes delivery payloadExpiresAt now t
  let passed := { t with outbox := updateWhere p (fun row => row.dispatched now) t.outbox }
  let attempts := (passed.outbox.filter fun row => row.dispatching delivery now).map
    (dispatchAttempt delivery now)
  let t' ← insertAttempts attempts passed
  return ((t.outbox.countP p, attempts.length), t')

/-- What is done with a mail for which the fence did not open, decided from the tables `seen`
after it. -/
def fenceDecision (delivery : LeasedDelivery) (payloadExpiresAt now : ℤ) (seen : RecoveryTables) :
    Option (FinishState × String) :=
  match joinedDelivery delivery.id seen with
  | none => none
  | some joined =>
      if joined.row.leasedBy delivery.id delivery.leaseToken = false ∨
          joined.row.leaseExpiresAt.all (fun expiresAt => expiresAt ≤ now) = true then none
      else if joined.token.map RecoveryToken.expiresAt ≠ some payloadExpiresAt then
        some (.parked, "PAYLOAD_EXPIRY_MISMATCH")
      else if joined.token.any (fun token => token.outlasts now) = false then
        some (.expired, "TOKEN_INVALID_AT_FENCE")
      else if joined.token.any (fun token => token.consumedAt.isSome) = true ∨
          joined.eligible = false then some (.cancelled, "TOKEN_INVALID_AT_FENCE")
      else none

/-- The mail is finished as the fence has decided. -/
def finishAtFence (delivery : LeasedDelivery) (payloadExpiresAt now : ℤ)
    (seen t : RecoveryTables) : RecoveryTables :=
  match fenceDecision delivery payloadExpiresAt now seen with
  | none => t
  | some (state, errorCode) =>
      (finishLeasedDelivery delivery.id delivery.leaseToken state errorCode now t).2

/-! ### Acceptance -/

/-- The attempt is the one of the lease, and still open. -/
def DeliveryAttempt.openFor (attempt : DeliveryAttempt) (id leaseToken : String) : Bool :=
  decide (attempt.attemptId = leaseToken) && decide (attempt.outboxId = id) &&
    decide (attempt.state = .dispatching)

def DeliveryRow.acceptedRow (row : DeliveryRow) (leaseToken messageId : String) (now : ℤ) :
    DeliveryRow :=
  { row with
    state := .accepted
    leaseToken := none
    leaseExpiresAt := none
    payload := none
    providerMessageId := some messageId
    acceptedAttemptId := some leaseToken
    acceptedAt := some now
    completedAt := some now
    updatedAt := now
    lastErrorCode := none }

/-- The row is being sent under the lease. -/
def DeliveryRow.dispatchedBy (row : DeliveryRow) (id leaseToken : String) : Bool :=
  decide (row.id = id) && decide (row.state = .dispatching) &&
    decide (row.leaseToken = some leaseToken)

/-- The batch of `markCredentialRecoveryAccepted`. -/
def acceptBatch (id leaseToken messageId : String) (now : ℤ) (t : RecoveryTables) :
    (ℕ × ℕ) × RecoveryTables :=
  let attempted := t.attempts.any fun attempt => attempt.openFor id leaseToken
  let p := fun row : DeliveryRow => row.dispatchedBy id leaseToken && attempted
  let outbox := updateWhere p (fun row => row.acceptedRow leaseToken messageId now) t.outbox
  let accepted := outbox.any fun row => decide (row.id = id) && decide (row.state = .accepted)
  let q := fun attempt : DeliveryAttempt => attempt.openFor id leaseToken && accepted
  ((t.outbox.countP p, t.attempts.countP q),
    { t with
      outbox := outbox
      attempts := updateWhere q (fun attempt =>
        { attempt with
          state := .accepted
          providerMessageId := some messageId
          resolvedAt := some now
          updatedAt := now }) t.attempts })

/-- The message id that is recorded, if it is neither blank nor too long. -/
def boundedMessageId (messageId : String) : Option String :=
  let bounded := trim messageId
  if bounded = "" ∨ 255 < codeUnits bounded then none else some bounded

/-- `markCredentialRecoveryAccepted`, up to the row that it reads when its batch has changed no
attempt. -/
def markAccepted (id leaseToken messageId : String) (now : ℤ) (t : RecoveryTables) :
    RecoveryTables :=
  match boundedMessageId messageId with
  | none => t
  | some bounded => (acceptBatch id leaseToken bounded now t).2

/-! ### Failure -/

inductive FailureState where
  | leased
  | dispatching
deriving DecidableEq

def FailureState.state : FailureState → DeliveryState
  | leased => .leased
  | dispatching => .dispatching

/-- What becomes of a mail that failed: it is tried again, or finished. -/
structure FailureDecision where
  retryable : Bool
  terminalExpired : Bool
deriving DecidableEq

/-- The decision on a failure, from the tables `seen`; none when the lease is not the worker's any
more. -/
def failureDecision (delivery : LeasedDelivery) (fromState : FailureState) (now : ℤ)
    (allowExpiredLease : Bool) (seen : RecoveryTables) : Option FailureDecision :=
  match joinedDelivery delivery.id seen with
  | none => none
  | some joined =>
      if joined.row.state ≠ fromState.state ∨ joined.row.leaseToken ≠ some delivery.leaseToken ∨
          allowExpiredLease = false ∧
            joined.row.leaseExpiresAt.all (fun expiresAt => expiresAt ≤ now) = true then none
      else
        let outlasts := joined.token.any fun token => token.outlasts now
        some
          { retryable := joined.token.any (fun token => token.consumedAt.isNone) &&
              joined.eligible && outlasts
            terminalExpired := !outlasts }

/-- The delay after a number of attempts. -/
def retryDelay (attemptCount : ℕ) : ℤ := min maxBackoffMs (30000 * 2 ^ min (attemptCount - 1) 7)

def DeliveryRow.failedRow (row : DeliveryRow) (attemptCount : ℕ) (errorCode : String)
    (ambiguous : Bool) (now : ℤ) (decision : FailureDecision) : DeliveryRow :=
  let cancelled := !decision.retryable && !decision.terminalExpired
  { row with
    state := if decision.retryable then .pending
      else if decision.terminalExpired then .expired else .cancelled
    attemptCount := attemptCount
    nextAttemptAt := if decision.retryable then now + retryDelay attemptCount else now
    leaseToken := none
    leaseExpiresAt := none
    payload := if decision.retryable then row.payload else none
    completedAt := if decision.retryable then none else some now
    updatedAt := now
    lastErrorCode := some errorCode
    ambiguousDispatchCount := row.ambiguousDispatchCount + if ambiguous then 1 else 0
    lastAmbiguityAt := if ambiguous then some now else row.lastAmbiguityAt
    cancellationReason := if cancelled then some (row.cancellationReason.getD errorCode)
      else row.cancellationReason
    cancellationObservedAt := if cancelled then some (row.cancellationObservedAt.getD now)
      else row.cancellationObservedAt }

/-- The row is in the state that the failure comes from, under its lease. -/
def DeliveryRow.failsFrom (row : DeliveryRow) (delivery : LeasedDelivery)
    (fromState : FailureState) : Bool :=
  decide (row.id = delivery.id) && decide (row.state = fromState.state) &&
    decide (row.leaseToken = some delivery.leaseToken)

/-- The batch of `settleCredentialRecoveryDeliveryFailure`. -/
def settleBatch (delivery : LeasedDelivery) (fromState : FailureState) (errorCode : String)
    (ambiguous : Bool) (now : ℤ) (decision : FailureDecision) (t : RecoveryTables) :
    RecoveryTables :=
  let attempts :=
    if fromState = .dispatching then
      updateWhere (fun attempt => attempt.openFor delivery.id delivery.leaseToken)
        (fun attempt =>
          { attempt with
            state := if ambiguous then .ambiguous else .httpRejected
            resolvedAt := some now
            updatedAt := now }) t.attempts
    else t.attempts
  { t with
    attempts := attempts
    outbox := updateWhere (fun row => row.failsFrom delivery fromState)
      (fun row => row.failedRow (delivery.attemptCount + 1) errorCode ambiguous now decision)
      t.outbox }

/-- `settleCredentialRecoveryDeliveryFailure`: decided from `seen`, and written if at all. -/
def settleFailure (delivery : LeasedDelivery) (fromState : FailureState) (errorCode : String)
    (ambiguous : Bool) (now : ℤ) (allowExpiredLease : Bool) (seen t : RecoveryTables) :
    RecoveryTables :=
  match failureDecision delivery fromState now allowExpiredLease seen with
  | none => t
  | some decision => settleBatch delivery fromState errorCode ambiguous now decision t

end MailPortal.Recovery
