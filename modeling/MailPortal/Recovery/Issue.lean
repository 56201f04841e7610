import MailPortal.Lib.Failure
import MailPortal.Recovery.Tables

/-!
# Issuing a Recovery Token

`issue` is one batch of up to ten statements. The first six replace the user's open tokens by a new
one, with its audit row and the mail that carries it; each of them repeats the same condition, that
the lease of the request holds, the user is eligible and fewer than three tokens were issued in the
last quarter of an hour. The other four settle the request.

Main definitions:

* `issueCondition`, `writeIssue`, `settleRequest` : the statements.
* `issueBatch`, `issue` : the batch, and what is made of its counts.
-/

namespace MailPortal.Recovery

open Failure Table

/-- The window in which tokens are counted. -/
def ISSUE_WINDOW_MS : ℤ := 15 * 60 * 1000

/-- `CREDENTIAL_RECOVERY_JOB_LIMITS.maxAgeMs` -/
def maxAgeMs : ℤ := 24 * 60 * 60 * 1000

/-- A token that is to be issued. -/
structure CredentialRecoveryIssue where
  id : String
  userId : String
  tokenHash : String
  expiresAt : ℤ
  issuedBy : Option String
  purpose : RecoveryPurpose
  createdAt : ℤ

/-- The request that asks for it, as its worker holds it. -/
structure RequestLease where
  jobId : String
  leaseToken : String

/-- What a call of `issue` draws: the ids of its rows and the encrypted mail. -/
structure IssueDraw where
  deliveryId : String
  auditId : String
  encrypted : EncryptedPayload

/-- What an issue returns. -/
inductive IssueOutcome where
  | issued
  | suppressed
  | rateLimited
  | expired
  | lost
deriving DecidableEq

/-! ### The condition -/

/-- The worker still holds the request. -/
def RequestJob.heldBy (job : RequestJob) (lease : RequestLease) : Bool :=
  decide (job.id = lease.jobId) && decide (job.state = .leased) &&
    decide (job.leaseToken = some lease.leaseToken)

/-- The request, if there is one, is held and not too old. -/
def leaseHolds (record : CredentialRecoveryIssue) (lease : Option RequestLease)
    (t : RecoveryTables) : Bool :=
  match lease with
  | none => true
  | some lease => t.jobs.any fun job =>
      job.heldBy lease && decide (record.createdAt - maxAgeMs < job.createdAt)

/-- The user may have a token for the purpose. -/
def eligible (record : CredentialRecoveryIssue) (t : RecoveryTables) : Bool :=
  t.users.any fun u => decide (u.id = record.userId) && u.eligible record.purpose

/-- The tokens of the user that were issued in the last window. -/
def recentTokens (record : CredentialRecoveryIssue) (t : RecoveryTables) : List RecoveryToken :=
  t.tokens.filter fun token => decide (token.userId = record.userId) &&
    decide (record.createdAt - ISSUE_WINDOW_MS < token.createdAt)

/-- A token has the id. -/
def tokenExists (id : String) (t : RecoveryTables) : Bool :=
  t.tokens.any fun token => decide (token.id = id)

/-- The condition of every statement. The token that the batch has inserted does not count against
its own rate. -/
def issueCondition (record : CredentialRecoveryIssue) (lease : Option RequestLease)
    (t : RecoveryTables) : Bool :=
  leaseHolds record lease t && eligible record t &&
    (decide ((recentTokens record t).length < 3) || tokenExists record.id t)

/-! ### The statements -/

/-- A token that its user could still use. -/
def RecoveryToken.openOf (token : RecoveryToken) (userId : String) : Bool :=
  decide (token.userId = userId) && token.consumedAt.isNone

/-- The row carries a token of the user. -/
def DeliveryRow.carriesTokenOf (row : DeliveryRow) (userId : String) (t : RecoveryTables) : Bool :=
  t.tokens.any fun token => decide (token.userId = userId) && decide (token.id = row.tokenId)

variable (record : CredentialRecoveryIssue) (lease : Option RequestLease) (draw : IssueDraw)

/-- The open tokens of the user are consumed. -/
def consumeEarlier (t : RecoveryTables) : RecoveryTables :=
  let condition := issueCondition record lease t
  { t with
    tokens := updateWhere (fun token => token.openOf record.userId && condition)
      (fun token => { token with consumedAt := some record.createdAt }) t.tokens }

/-- The mails that carry them are cancelled. -/
def cancelWaiting (t : RecoveryTables) : RecoveryTables :=
  let condition := issueCondition record lease t
  { t with
    outbox := updateWhere
      (fun row => row.carriesTokenOf record.userId t && row.waiting && condition)
      (fun row => row.cancelledRow "SUPERSEDED" record.createdAt) t.outbox }

/-- Those on their way are marked. -/
def markDispatching (t : RecoveryTables) : RecoveryTables :=
  let condition := issueCondition record lease t
  { t with
    outbox := updateWhere
      (fun row => row.carriesTokenOf record.userId t && decide (row.state = .dispatching) &&
        condition)
      (fun row => row.markedRow "SUPERSEDED" record.createdAt) t.outbox }

/-- The token that is issued. -/
def issuedToken : RecoveryToken where
  id := record.id
  userId := record.userId
  tokenHash := record.tokenHash
  expiresAt := record.expiresAt
  consumedAt := none
  consumptionNonce := none
  purpose := record.purpose
  issuedBy := record.issuedBy
  createdAt := record.createdAt

/-- A user has the id. -/
def userExists (id : String) (t : RecoveryTables) : Bool := t.users.any fun u => decide (u.id = id)

/-- `INSERT INTO credential_recovery_tokens`: the id and the hash are new, the users exist. -/
def insertToken (t : RecoveryTables) : Except String (ℕ × RecoveryTables) := do
  if issueCondition record lease t then
    require (!tokenExists record.id t &&
      t.tokens.all fun token => decide (token.tokenHash ≠ record.tokenHash))
      "UNIQUE constraint failed"
    require (userExists record.userId t && record.issuedBy.all fun id => userExists id t)
      "FOREIGN KEY constraint failed"
    return (1, { t with tokens := t.tokens ++ [issuedToken record] })
  else
    return (0, t)

/-- The audit row of an issue. -/
def issueAudit : AuditRow where
  id := draw.auditId
  userId := record.userId
  eventType := if record.purpose = .setup then .setupIssued else .recoveryIssued
  actorUserId := record.issuedBy
  createdAt := record.createdAt

/-- `INSERT INTO credential_recovery_audit` -/
def insertAudit (row : AuditRow) (condition : Bool) (t : RecoveryTables) :
    Except String (ℕ × RecoveryTables) := do
  if condition then
    require (t.audit.all fun other => decide (other.id ≠ row.id)) "UNIQUE constraint failed"
    require (userExists row.userId t && row.actorUserId.all fun id => userExists id t)
      "FOREIGN KEY constraint failed"
    return (1, { t with audit := t.audit ++ [row] })
  else
    return (0, t)

/-- The mail that carries the token, ready to be sent. -/
def pendingRow : DeliveryRow where
  id := draw.deliveryId
  tokenId := record.id
  payload := some draw.encrypted
  state := .pending
  attemptCount := 0
  nextAttemptAt := record.createdAt
  leaseToken := none
  leaseExpiresAt := none
  dispatchStartedAt := none
  providerMessageId := none
  acceptedAttemptId := none
  lastErrorCode := none
  ambiguousDispatchCount := 0
  lastAmbiguityAt := none
  cancellationReason := none
  cancellationObservedAt := none
  acceptedAt := none
  completedAt := none
  createdAt := record.createdAt
  updatedAt := record.createdAt

/-- `INSERT INTO credential_recovery_delivery_outbox` -/
def insertDelivery (t : RecoveryTables) : Except String (ℕ × RecoveryTables) := do
  if issueCondition record lease t then
    require (t.outbox.all fun row =>
      decide (row.id ≠ draw.deliveryId) && decide (row.tokenId ≠ record.id))
      "UNIQUE constraint failed"
    require (tokenExists record.id t) "FOREIGN KEY constraint failed"
    return (1, { t with outbox := t.outbox ++ [pendingRow record draw] })
  else
    return (0, t)

/-! ### The request -/

/-- A job that is finished, with the reason. -/
def RequestJob.settled (job : RequestJob) (state : JobState) (errorCode : Option String)
    (now : ℤ) : RequestJob :=
  { job with
    state := state
    leaseToken := none
    leaseExpiresAt := none
    payload := none
    completedAt := some now
    updatedAt := now
    lastErrorCode := errorCode }

/-- A job that is to be tried again. -/
def RequestJob.postponed (job : RequestJob) (nextAttemptAt now : ℤ) : RequestJob :=
  { job with
    state := .pending
    leaseToken := none
    leaseExpiresAt := none
    nextAttemptAt := nextAttemptAt
    updatedAt := now
    lastErrorCode := some "ISSUE_RATE_LIMITED" }

/-- The rows an update changes, and the table after it. -/
def updateJobs (p : RequestJob → Bool) (f : RequestJob → RequestJob) (t : RecoveryTables) :
    ℕ × RecoveryTables :=
  (t.jobs.countP p, { t with jobs := updateWhere p f t.jobs })

/-- The request has its token. -/
def completeJob (l : RequestLease) (t : RecoveryTables) : ℕ × RecoveryTables :=
  let condition := issueCondition record (some l) t
  updateJobs (fun job => job.heldBy l && condition)
    (fun job => job.settled .completed none record.createdAt) t

/-- The user may have none. -/
def suppressJob (l : RequestLease) (t : RecoveryTables) : ℕ × RecoveryTables :=
  let suppressed := !eligible record t
  updateJobs (fun job => job.heldBy l && suppressed)
    (fun job => job.settled .suppressed none record.createdAt) t

/-- The request is too old. -/
def expireJob (l : RequestLease) (t : RecoveryTables) : ℕ × RecoveryTables :=
  updateJobs (fun job => job.heldBy l && decide (job.createdAt ≤ record.createdAt - maxAgeMs))
    (fun job => job.settled .expired (some "REQUEST_LIFETIME_EXPIRED") record.createdAt) t

/-- When the first of the recent tokens leaves the window. -/
def nextIssueAt (t : RecoveryTables) : ℤ :=
  (((recentTokens record t).map RecoveryToken.createdAt).min?.map (· + ISSUE_WINDOW_MS)).getD
    (record.createdAt + ISSUE_WINDOW_MS)

/-- The user has had too many. -/
def postponeJob (l : RequestLease) (t : RecoveryTables) : ℕ × RecoveryTables :=
  let limited := eligible record t && decide (3 ≤ (recentTokens record t).length) &&
    !tokenExists record.id t
  let nextAttemptAt := nextIssueAt record t
  updateJobs (fun job => job.heldBy l && limited)
    (fun job => job.postponed nextAttemptAt record.createdAt) t

/-- The counts of the statements that settle a request. -/
structure RequestChanges where
  completed : ℕ
  suppressed : ℕ
  expired : ℕ
  postponed : ℕ

/-- The four statements, in order. -/
def settleRequest (l : RequestLease) (t : RecoveryTables) : RequestChanges × RecoveryTables :=
  let (completed, t) := completeJob record l t
  let (suppressed, t) := suppressJob record l t
  let (expired, t) := expireJob record l t
  let (postponed, t) := postponeJob record l t
  (⟨completed, suppressed, expired, postponed⟩, t)

/-! ### Issue -/

/-- The counts of the three insertions. -/
structure IssueChanges where
  token : ℕ
  audit : ℕ
  delivery : ℕ

/-- The first six statements. -/
def writeIssue (t : RecoveryTables) : Except String (IssueChanges × RecoveryTables) := do
  let t := consumeEarlier record lease t
  let t := cancelWaiting record lease t
  let t := markDispatching record lease t
  let (token, t) ← insertToken record lease t
  let (audit, t) ← insertAudit (issueAudit record draw) (issueCondition record lease t) t
  let (delivery, t) ← insertDelivery record lease draw t
  return (⟨token, audit, delivery⟩, t)

/-- The batch. -/
def issueBatch (t : RecoveryTables) :
    Except String (IssueChanges × Option RequestChanges × RecoveryTables) := do
  let (changes, t) ← writeIssue record lease draw t
  match lease with
  | none => return (changes, none, t)
  | some l =>
      let (request, t) := settleRequest record l t
      return (changes, some request, t)

/-- Without a request, the reason is read from the user once more. -/
def classifyUser (t : RecoveryTables) : IssueOutcome :=
  match t.user record.userId with
  | none => .suppressed
  | some u =>
      if u.isActive ≠ 1 ∨
          (decide (record.purpose = .setup)) ≠ u.ownershipConfirmedAt.isNone then .suppressed
      else .rateLimited

/-- With a request, the reason is the statement that settled it. -/
def classifyRequest (request : RequestChanges) : IssueOutcome :=
  if request.suppressed = 1 then .suppressed
  else if request.expired = 1 then .expired
  else if request.postponed = 1 then .rateLimited
  else .lost

/-- The link in a delivery, as the URL parser reads it. -/
structure RecoveryUrl where
  origin : String
  pathname : String
  token : Option String
  username : String
  password : String
  hash : String

/-- The link leads to the page of the mail origin, with a token. -/
def RecoveryUrl.valid (url : RecoveryUrl) (mailOrigin : String) : Bool :=
  decide (url.origin = mailOrigin) && decide (url.pathname = "/account/recover") &&
    url.token.any (fun token => token ≠ "") && decide (url.username = "") &&
    decide (url.password = "") && decide (url.hash = "")

/-- `issue`, which reads the tables after its batch once more when it has no request; `later` is
what others have done to them by then. -/
def issue (mailOrigin : String) (url : RecoveryUrl) (expiresAt : ℤ)
    (later : RecoveryTables → RecoveryTables) (t : RecoveryTables) :
    Except String (IssueOutcome × RecoveryTables) := do
  require (url.valid mailOrigin && decide (expiresAt = record.expiresAt))
    "Credential recovery delivery target is invalid"
  let (changes, request, t') ← issueBatch record lease draw t
  if changes.token = 1 ∧ changes.audit = 1 ∧ changes.delivery = 1 then
    match request with
    | none => return (.issued, t')
    | some request => do
        require (decide (request.completed = 1))
          "Credential recovery issuance did not settle its request"
        return (.issued, t')
  else
    match request with
    | none => return (classifyUser record (later t'), t')
    | some request => return (classifyRequest request, t')

/-- The tables after a call of `issue`: those of its batch, unless the target is not valid or the
batch is rolled back. -/
def issueTables (mailOrigin : String) (url : RecoveryUrl) (expiresAt : ℤ) (t : RecoveryTables) :
    RecoveryTables :=
  if url.valid mailOrigin && decide (expiresAt = record.expiresAt) then
    match issueBatch record lease draw t with
    | .ok (_, _, t') => t'
    | .error _ => t
  else t

end MailPortal.Recovery
