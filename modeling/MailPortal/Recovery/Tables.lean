import MailPortal.Lib.Table
import Mathlib.Algebra.Group.Int.Defs
import Mathlib.Data.String.Basic

/-!
# The Tables of Credential Recovery

A user who lost access is sent a link with a token. The tables hold the users, the tokens that were
issued, an audit trail, the jobs that ask for a token, the outbox of the mails that carry one, and
the attempts to hand such a mail to the provider. They are a D1 database: a batch of statements runs
as one, each statement sees what the ones before it did, and a statement that violates a key rolls
the batch back.

The payload of a job or a mail is stored encrypted, in three columns that are null together.
-/

namespace MailPortal.Recovery

/-- What a token is for: to claim a new account, or to recover one that is claimed. -/
inductive RecoveryPurpose where
  | setup
  | recovery
deriving DecidableEq

/-- A row of `users`. -/
structure User where
  id : String
  email : String
  isActive : ℤ
  ownershipConfirmedAt : Option ℤ
  passwordHash : String
  passwordSalt : String
  mcpTokenHash : Option String
  sessionVersion : ℤ
  updatedAt : ℤ
deriving DecidableEq

/-- A row of `credential_recovery_tokens`. -/
structure RecoveryToken where
  id : String
  userId : String
  tokenHash : String
  expiresAt : ℤ
  consumedAt : Option ℤ
  consumptionNonce : Option String
  purpose : RecoveryPurpose
  issuedBy : Option String
  createdAt : ℤ
deriving DecidableEq

inductive AuditEvent where
  | setupIssued
  | ownershipConfirmed
  | recoveryIssued
  | credentialsRecovered
deriving DecidableEq

/-- A row of `credential_recovery_audit`. -/
structure AuditRow where
  id : String
  userId : String
  eventType : AuditEvent
  actorUserId : Option String
  createdAt : ℤ
deriving DecidableEq

structure EncryptedPayload where
  keyVersion : ℤ
  iv : String
  ciphertext : String
deriving DecidableEq

inductive DeliveryState where
  | pending
  | leased
  | dispatching
  | accepted
  | cancelled
  | expired
  | parked
deriving DecidableEq

/-- A row of `credential_recovery_delivery_outbox`. -/
structure DeliveryRow where
  id : String
  tokenId : String
  payload : Option EncryptedPayload
  state : DeliveryState
  attemptCount : ℕ
  nextAttemptAt : ℤ
  leaseToken : Option String
  leaseExpiresAt : Option ℤ
  dispatchStartedAt : Option ℤ
  providerMessageId : Option String
  acceptedAttemptId : Option String
  lastErrorCode : Option String
  ambiguousDispatchCount : ℕ
  lastAmbiguityAt : Option ℤ
  cancellationReason : Option String
  cancellationObservedAt : Option ℤ
  acceptedAt : Option ℤ
  completedAt : Option ℤ
  createdAt : ℤ
  updatedAt : ℤ
deriving DecidableEq

inductive AttemptState where
  | dispatching
  | ambiguous
  | httpRejected
  | accepted
deriving DecidableEq

/-- A row of `credential_recovery_delivery_attempts`. -/
structure DeliveryAttempt where
  attemptId : String
  outboxId : String
  state : AttemptState
  providerMessageId : Option String
  dispatchStartedAt : Option ℤ
  resolvedAt : Option ℤ
  createdAt : ℤ
  updatedAt : ℤ
deriving DecidableEq

inductive JobState where
  | pending
  | leased
  | completed
  | suppressed
  | expired
  | parked
deriving DecidableEq

/-- A row of `credential_recovery_request_jobs`. -/
structure RequestJob where
  id : String
  payload : Option EncryptedPayload
  state : JobState
  nextAttemptAt : ℤ
  leaseToken : Option String
  leaseExpiresAt : Option ℤ
  lastErrorCode : Option String
  completedAt : Option ℤ
  createdAt : ℤ
  updatedAt : ℤ
deriving DecidableEq

/-- The database. `enabled` is the control row: recovery is switched on. -/
structure RecoveryTables where
  users : List User
  tokens : List RecoveryToken
  audit : List AuditRow
  outbox : List DeliveryRow
  attempts : List DeliveryAttempt
  jobs : List RequestJob
  enabled : Bool
deriving DecidableEq

namespace RecoveryTables

def empty : RecoveryTables := ⟨[], [], [], [], [], [], false⟩

def user (t : RecoveryTables) (id : String) : Option User := Table.lookup User.id id t.users

def token (t : RecoveryTables) (id : String) : Option RecoveryToken :=
  Table.lookup RecoveryToken.id id t.tokens

def delivery (t : RecoveryTables) (id : String) : Option DeliveryRow :=
  Table.lookup DeliveryRow.id id t.outbox

end RecoveryTables

/-- A user may be given a token for a purpose: the account is active, and is to be claimed or is
claimed already. -/
def User.eligible (u : User) (purpose : RecoveryPurpose) : Bool :=
  decide (u.isActive = 1) &&
    (decide (purpose = .setup) && u.ownershipConfirmedAt.isNone ||
      decide (purpose = .recovery) && u.ownershipConfirmedAt.isSome)

/-- A row that is finished without being sent: the lease and the secret are dropped. -/
def DeliveryRow.cancelledRow (row : DeliveryRow) (reason : String) (now : ℤ) : DeliveryRow :=
  { row with
    state := .cancelled
    leaseToken := none
    leaseExpiresAt := none
    payload := none
    completedAt := some now
    updatedAt := now
    lastErrorCode := some reason
    cancellationReason := some reason
    cancellationObservedAt := some now }

/-- A row that is being sent only notes that it should not be. -/
def DeliveryRow.markedRow (row : DeliveryRow) (reason : String) (now : ℤ) : DeliveryRow :=
  { row with
    cancellationReason := some (row.cancellationReason.getD reason)
    cancellationObservedAt := some (row.cancellationObservedAt.getD now)
    updatedAt := now }

/-- A row that is still to be sent. -/
def DeliveryRow.waiting (row : DeliveryRow) : Bool :=
  decide (row.state = .pending) || decide (row.state = .leased)

end MailPortal.Recovery
