import MailPortal.Lib.Fallible
import MailPortal.Lib.Table
import MailPortal.Platform.JavaScript
import Mathlib.Data.List.Sort
import Mathlib.Data.Rat.Floor

/-!
# The Outbox of Agent Connection Revocations

An access change inserts rows into the outbox, one for each mailbox whose live connections have to
be reconciled. A drain claims a batch of rows under a lease, renews the lease before each row,
reconciles the connections, and deletes the row. A caller who must know that nothing is left
drains the rows of a target and looks once more.

A statement may fail, with its effect or without it. A call to reconcile begins, and fails or
returns later, or never; others act in between.

Main definitions:

* `Outbox` : the table, with the history of what was done to it.
* `drainAgentConnectionRevocations`, `requireAgentConnectionReconciliation` : the programs.
* `exec` : what a call may answer and do.
-/

namespace MailPortal.Revocation

open Concurrent

/-! ### Rows -/

/-- Whose connections have to be reconciled: the columns `scope`, `mailbox_id` and `user_id`. The
table has a user just for the scope of an actor. -/
inductive Subject
  | actor (mailboxId userId : String)
  | mailbox (mailboxId : String)
  deriving DecidableEq

inductive RevocationScope
  | actor
  | mailbox
  deriving DecidableEq

namespace Subject

def mailboxId : Subject → String
  | actor mailboxId _ => mailboxId
  | mailbox mailboxId => mailboxId

def userId : Subject → Option String
  | actor _ userId => some userId
  | mailbox _ => none

def scope : Subject → RevocationScope
  | actor _ _ => .actor
  | mailbox _ => .mailbox

end Subject

/-- The columns `lease_token` and `lease_expires_at`, which are null together. -/
structure Lease where
  token : String
  expiresAt : ℤ
  deriving DecidableEq

/-- The stage at which a delivery failed. -/
inductive ErrorCode
  | agentRpcFailed
  | completionFailed
  deriving DecidableEq

/-- A row of `agent_connection_revocations`. -/
structure OutboxRow where
  id : String
  subject : Subject
  attemptCount : ℕ
  nextAttemptAt : ℤ
  lease : Option Lease
  lastErrorCode : Option ErrorCode
  createdAt : ℤ
  updatedAt : ℤ
  deriving DecidableEq

/-- What a trigger inserts: the time is that of the database. -/
def insertedRow (id : String) (subject : Subject) (now : ℤ) : OutboxRow where
  id := id
  subject := subject
  attemptCount := 0
  nextAttemptAt := now
  lease := none
  lastErrorCode := none
  createdAt := now
  updatedAt := now

/-- `AgentConnectionRevocationTarget` -/
structure RevocationTarget where
  mailboxId : Option String
  userId : Option String
  scope : Option RevocationScope
  deriving DecidableEq

section Statements

variable (toLowerCase : String → String)

/-- `targetSql`. An empty text sets no condition. -/
def RevocationTarget.matches (target : RevocationTarget) (subject : Subject) : Bool :=
  (target.mailboxId.all fun mailboxId =>
    mailboxId = "" || subject.mailboxId = toLowerCase mailboxId) &&
  (target.userId.all fun userId => userId = "" || subject.userId = some userId) &&
  target.scope.all fun scope => subject.scope = scope

/-- `lease_token IS NULL OR lease_expires_at <= now` -/
def OutboxRow.leaseFree (row : OutboxRow) (now : ℤ) : Bool :=
  row.lease.all fun lease => decide (lease.expiresAt ≤ now)

/-- The row is due, and nobody holds it. -/
def OutboxRow.due (row : OutboxRow) (now : ℤ) : Bool :=
  decide (row.nextAttemptAt ≤ now) && row.leaseFree now

/-- `ORDER BY next_attempt_at ASC, created_at ASC, id ASC` -/
def OutboxRow.dueBefore (row row' : OutboxRow) : Bool :=
  decide (row.nextAttemptAt < row'.nextAttemptAt) ||
    (decide (row.nextAttemptAt = row'.nextAttemptAt) &&
      (decide (row.createdAt < row'.createdAt) ||
        (decide (row.createdAt = row'.createdAt) && decide (row.id ≤ row'.id))))

/-- `AGENT_CONNECTION_REVOCATION_LIMITS.batchSize` -/
def batchSize : ℕ := 25

def leaseMs : ℤ := 60000

/-- `retryDelayMs` -/
def retryDelayMs (attemptCount : ℕ) : ℤ := min (60000 * 2 ^ (attemptCount - 1)) (60 * 60000)

/-- The rows that a claim selects. -/
def selectedRows (target : RevocationTarget) (now : ℤ) (rows : List OutboxRow) : List OutboxRow :=
  ((rows.filter fun row => row.due now && target.matches toLowerCase row.subject).insertionSort
    fun row row' => row.dueBefore row' = true).take batchSize

/-- The condition of the update of a claim. -/
def claims (target : RevocationTarget) (now : ℤ) (rows : List OutboxRow) (row : OutboxRow) :
    Bool :=
  decide (row.id ∈ (selectedRows toLowerCase target now rows).map OutboxRow.id) &&
    row.leaseFree now

/-- A row after a claim. -/
def OutboxRow.claimed (row : OutboxRow) (token : String) (now : ℤ) : OutboxRow :=
  { row with
    lease := some ⟨token, now + leaseMs⟩
    attemptCount := row.attemptCount + 1
    updatedAt := now }

/-- The row belongs to the holder of a token. -/
def OutboxRow.heldBy (row : OutboxRow) (id token : String) : Bool :=
  decide (row.id = id) && row.lease.any fun lease => lease.token = token

end Statements

/-! ### The table and its history -/

/-- What was done to the outbox, and to the connections that it is about. A worker is known by the
token of its batch. -/
inductive Event
  | inserted (id : String) (subject : Subject)
  | claimed (token : String) (ids : List String)
  | began (token : String) (subject : Subject)
  | returned (token : String) (subject : Subject)
  | deleted (token id : String) (subject : Subject)
  | read (rows : List OutboxRow)
  deriving DecidableEq

/-- **The outbox**, with its history. No program reads the history. -/
structure Outbox where
  rows : List OutboxRow
  history : List Event
  deriving DecidableEq

def Outbox.log (outbox : Outbox) (event : Event) : Outbox :=
  { outbox with history := outbox.history ++ [event] }

/-- The rows that were ever inserted, by their ids. -/
def insertedIds (history : List Event) : List String :=
  history.filterMap fun event =>
    match event with
    | .inserted id _ => some id
    | _ => none

/-! ### Calls -/

/-- `AgentConnectionRevocationRow` : what a claim returns of a row. -/
structure ClaimedRow where
  id : String
  subject : Subject
  attemptCount : ℕ
  deriving DecidableEq

def OutboxRow.returning (row : OutboxRow) : ClaimedRow := ⟨row.id, row.subject, row.attemptCount⟩

/-- What the outbox asks for. -/
inductive Op
  | now
  | createToken
  | claimBatch (target : RevocationTarget) (now : ℤ) (token : String)
  | renewLease (id token : String) (now : ℤ)
  | complete (id token : String)
  | retry (row : ClaimedRow) (token : String) (now : ℤ) (errorCode : ErrorCode)
  | hasDueWork (target : RevocationTarget) (now : ℤ)
  | hasOutstandingWork (target : RevocationTarget)
  | beginReconcile (token : String) (subject : Subject)
  | awaitReconcile (token : String) (subject : Subject)
  | changeAccess (revoked : List (String × Subject)) (now : ℤ)

/-- An update and a deletion answer how many rows they changed. -/
abbrev Value : Op → Type
  | .now => ℤ
  | .createToken => String
  | .claimBatch .. => List ClaimedRow
  | .renewLease .. => ℕ
  | .complete .. => ℕ
  | .retry .. => Unit
  | .hasDueWork .. => Bool
  | .hasOutstandingWork .. => Bool
  | .beginReconcile .. => Unit
  | .awaitReconcile .. => Unit
  | .changeAccess .. => Unit

/-- A statement fails, with its effect or without it, or answers. -/
def Statement {α : Type} (outbox after : Outbox) (Answers : α → Prop) (answer : Option α)
    (outbox' : Outbox) : Prop :=
  (answer = none ∧ (outbox' = outbox ∨ outbox' = after)) ∨
    ∃ value, answer = some value ∧ Answers value ∧ outbox' = after

namespace Outbox

variable (toLowerCase : String → String) (outbox : Outbox)

def claimBatch (target : RevocationTarget) (now : ℤ) (token : String) : Outbox :=
  let claims := claims toLowerCase target now outbox.rows
  { rows := Table.updateWhere claims (fun row => row.claimed token now) outbox.rows
    history := outbox.history ++
      [.claimed token ((outbox.rows.filter claims).map OutboxRow.id)] }

/-- What a claim returns. -/
def claimedRows (target : RevocationTarget) (now : ℤ) (token : String) : List ClaimedRow :=
  (outbox.rows.filter (claims toLowerCase target now outbox.rows)).map fun row =>
    (row.claimed token now).returning

/-- The rows whose lease is renewed. -/
def renewable (id token : String) (now : ℤ) (row : OutboxRow) : Bool :=
  row.heldBy id token && row.lease.any fun lease => decide (now < lease.expiresAt)

def renewLease (id token : String) (now : ℤ) : Outbox :=
  { outbox with
    rows := Table.updateWhere (renewable id token now)
      (fun row => { row with lease := some ⟨token, now + leaseMs⟩, updatedAt := now }) outbox.rows }

/-- The rows that are deleted. -/
def deletions (id token : String) : List Event :=
  (outbox.rows.filter fun row => row.heldBy id token).map fun row =>
    .deleted token row.id row.subject

def complete (id token : String) : Outbox where
  rows := Table.deleteWhere (fun row => row.heldBy id token) outbox.rows
  history := outbox.history ++ outbox.deletions id token

def retry (row : ClaimedRow) (token : String) (now : ℤ) (errorCode : ErrorCode) : Outbox :=
  { outbox with
    rows := Table.updateWhere (fun old => old.heldBy row.id token)
      (fun old => { old with
        nextAttemptAt := now + retryDelayMs row.attemptCount
        lease := none
        lastErrorCode := some errorCode
        updatedAt := now }) outbox.rows }

def hasDueWork (target : RevocationTarget) (now : ℤ) : Bool :=
  outbox.rows.any fun row => row.due now && target.matches toLowerCase row.subject

def hasOutstandingWork (target : RevocationTarget) : Bool :=
  outbox.rows.any fun row => target.matches toLowerCase row.subject

def insert (revoked : List (String × Subject)) (now : ℤ) : Outbox where
  rows := outbox.rows ++ revoked.map fun (id, subject) => insertedRow id subject now
  history := outbox.history ++ revoked.map fun (id, subject) => .inserted id subject

end Outbox

/-- **What a call may answer and do.** A claim returns its rows in any order. The rows that an
access change inserts have new ids. -/
def exec (toLowerCase : String → String) :
    (op : Op) → Outbox → Option (Value op) → Outbox → Prop
  | .now, outbox, answer, outbox' => answer.isSome ∧ outbox' = outbox
  | .createToken, outbox, answer, outbox' => answer.isSome ∧ outbox' = outbox
  | .claimBatch target now token, outbox, answer, outbox' =>
      Statement outbox (outbox.claimBatch toLowerCase target now token)
        (fun rows : List ClaimedRow => rows.Perm (outbox.claimedRows toLowerCase target now token))
        answer outbox'
  | .renewLease id token now, outbox, answer, outbox' =>
      Statement outbox (outbox.renewLease id token now)
        (fun changes => changes = outbox.rows.countP (Outbox.renewable id token now))
        answer outbox'
  | .complete id token, outbox, answer, outbox' =>
      Statement outbox (outbox.complete id token)
        (fun changes => changes = outbox.rows.countP fun row => row.heldBy id token) answer outbox'
  | .retry row token now errorCode, outbox, answer, outbox' =>
      Statement outbox (outbox.retry row token now errorCode) (fun _ => True) answer outbox'
  | .hasDueWork target now, outbox, answer, outbox' =>
      Statement outbox outbox (fun found => found = outbox.hasDueWork toLowerCase target now)
        answer outbox'
  | .hasOutstandingWork target, outbox, answer, outbox' =>
      Statement outbox (outbox.log (.read outbox.rows))
        (fun found => found = outbox.hasOutstandingWork toLowerCase target) answer outbox'
  | .beginReconcile token subject, outbox, answer, outbox' =>
      answer.isSome ∧ outbox' = outbox.log (.began token subject)
  | .awaitReconcile token subject, outbox, answer, outbox' =>
      (answer = none ∧ outbox' = outbox) ∨
        (answer.isSome ∧ outbox' = outbox.log (.returned token subject))
  | .changeAccess revoked now, outbox, answer, outbox' =>
      (revoked.map Prod.fst).Nodup ∧
        (∀ id ∈ revoked.map Prod.fst, id ∉ insertedIds outbox.history) ∧
        Statement outbox (outbox.insert revoked now) (fun _ => True) answer outbox'

/-! ### Programs -/

/-- How the delivery of a row ends. -/
inductive Delivery
  | delivered
  | leaseLost
  | failed (stage : ErrorCode)
  deriving DecidableEq

/-- `reconcile`, and then `complete`. An actor without a user is not reconciled. -/
def reconcileAndComplete (row : ClaimedRow) (token : String) : Fallible Op Value Delivery :=
  if row.subject.userId = some "" then pure (.failed .agentRpcFailed)
  else do
    let began ← (perform (Op.beginReconcile token row.subject)).run
    if began.isNone then return .failed .agentRpcFailed
    let returned ← (perform (Op.awaitReconcile token row.subject)).run
    if returned.isNone then return .failed .agentRpcFailed
    let changes ← (perform (Op.complete row.id token)).run
    return if changes = some 1 then .delivered
      else if changes.isNone then .failed .completionFailed else .leaseLost

/-- The `try` of a row. -/
def deliver (row : ClaimedRow) (token : String) : Fallible Op Value Delivery := do
  let now ← (perform Op.now).run
  match now with
  | none => return .failed .agentRpcFailed
  | some now =>
      let changes ← (perform (Op.renewLease row.id token now)).run
      if changes = some 1 then reconcileAndComplete row token
      else return if changes.isNone then .failed .agentRpcFailed else .leaseLost

/-- What a drain counts. -/
structure Counts where
  claimedCount : ℕ
  deliveredCount : ℕ
  failedCount : ℕ
  deriving DecidableEq

/-- The rows of a batch, one after the other. -/
def deliverRows (token : String) : List ClaimedRow → Counts → Throws Op Value Counts
  | [], counts => pure counts
  | row :: rows, counts => do
      let delivery ← OptionT.lift (deliver row token)
      match delivery with
      | .delivered =>
          deliverRows token rows { counts with deliveredCount := counts.deliveredCount + 1 }
      | .leaseLost => deliverRows token rows { counts with failedCount := counts.failedCount + 1 }
      | .failed stage => do
          let now ← perform Op.now
          let _ ← perform (Op.retry row token now stage)
          deliverRows token rows { counts with failedCount := counts.failedCount + 1 }

/-- The batches of a drain: the last one is not full. -/
def drainBatches (target : RevocationTarget) : ℕ → Counts → Throws Op Value Counts
  | 0, counts => pure counts
  | batches + 1, counts => do
      let claimNow ← perform Op.now
      let token ← perform Op.createToken
      let rows ← perform (Op.claimBatch target claimNow token)
      let counts ← deliverRows token rows
        { counts with claimedCount := counts.claimedCount + rows.length }
      if rows.length < batchSize then pure counts
      else drainBatches target batches counts

/-- How many batches a drain has at most: `maxBatches` is held between 1 and 4, and no batch comes
before `NaN`. -/
def batchLimit : Option JsNumber → ℕ
  | none => 4
  | some none => 0
  | some (some maxBatches) => ⌈max 1 (min maxBatches 4)⌉.toNat

/-- What a drain returns. -/
structure Drained where
  counts : Counts
  hasMore : Bool
  deriving DecidableEq

/-- **`drainAgentConnectionRevocations`** -/
def drainAgentConnectionRevocations (target : RevocationTarget) (maxBatches : Option JsNumber) :
    Throws Op Value Drained := do
  let counts ← drainBatches target (batchLimit maxBatches) ⟨0, 0, 0⟩
  let now ← perform Op.now
  let hasMore ← perform (Op.hasDueWork target now)
  return ⟨counts, hasMore⟩

/-- **`requireAgentConnectionReconciliation`** -/
def requireAgentConnectionReconciliation (target : RevocationTarget) : Throws Op Value Unit := do
  let result ← drainAgentConnectionRevocations target none
  let outstanding ← perform (Op.hasOutstandingWork target)
  throwUnless (decide (result.counts.failedCount = 0) && !result.hasMore && !outstanding)

/-- How a program ends. A caller who must know keeps the history at the time of the call. -/
inductive Ended
  | done
  | required (target : RevocationTarget) (before : List Event) (returned : Bool)

/-- The programs that may start, at any time: access changes, drains, and callers who must
know. -/
inductive Starts : Outbox → Fallible Op Value Ended → Prop
  | change (outbox : Outbox) (revoked : List (String × Subject)) (now : ℤ) :
      Starts outbox ((perform (Op.changeAccess revoked now)).run >>= fun _ => pure .done)
  | drain (outbox : Outbox) (target : RevocationTarget) (maxBatches : Option JsNumber) :
      Starts outbox ((drainAgentConnectionRevocations target maxBatches).run >>= fun _ =>
        pure .done)
  | require (outbox : Outbox) (target : RevocationTarget) :
      Starts outbox ((requireAgentConnectionReconciliation target).run >>= fun result =>
        pure (.required target outbox.history result.isSome))

def emptyOutbox : Outbox := ⟨[], []⟩

end MailPortal.Revocation
