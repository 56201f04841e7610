import MailPortal.Lib.Concurrent
import MailPortal.Lib.Table
import MailPortal.Platform.JavaScript

/-!
# The Reminder Tables

The tables of follow-up reminders and their operations, and the statements of
`followUpReminderD1Store`. The database runs each statement and each batch atomically
(`ReminderOp.Exec`).

A stored JSON text is kept as the value that it reads back as, and a fingerprint as the values that
it spells out.

`World` also has what the tables do not: the ids that were drawn, every update of a reminder with
the rows before and after, and the users that were refused access or lost it. No statement reads
these.
-/

namespace MailPortal.Reminders

open Table

/-! ### Rows -/

inductive FollowUpReminderState
  | active
  | completed
  | dismissed
  deriving DecidableEq

inductive FollowUpReminderResolution
  | manual
  | inboundReply
  | dismissed
  deriving DecidableEq

/-- A reminder, as it is answered. -/
structure FollowUpReminder where
  id : String
  ownerUserId : String
  mailboxAddress : String
  conversationKey : String
  baselineMessageId : String
  baselineMessageDate : String
  remindAt : String
  state : FollowUpReminderState
  resolutionReason : Option FollowUpReminderResolution
  version : ℕ
  createdAt : ℤ
  updatedAt : ℤ
  resolvedAt : Option ℤ
  deriving DecidableEq

/-- `[mailbox, emailId, remindAt]` -/
structure CreateFingerprint where
  mailbox : String
  emailId : String
  remindAt : String
  deriving DecidableEq

/-- What is done to a reminder. -/
inductive ReminderAction
  | dismiss
  | complete
  | snooze (remindAt : String)
  deriving DecidableEq

/-- `[mailbox, id, action, expectedVersion, remindAt]` -/
structure OperationFingerprint where
  mailbox : String
  id : String
  action : ReminderAction
  expectedVersion : ℕ
  deriving DecidableEq

/-- A row of `follow_up_reminders`. -/
structure ReminderRow where
  id : String
  ownerUserId : String
  mailboxAddress : String
  conversationKey : String
  baselineMessageId : String
  baselineMessageDate : ℤ
  remindAt : ℤ
  state : FollowUpReminderState
  resolutionReason : Option FollowUpReminderResolution
  createIdempotencyKey : String
  createFingerprint : CreateFingerprint
  createResult : FollowUpReminder
  version : ℕ
  createdAt : ℤ
  updatedAt : ℤ
  resolvedAt : Option ℤ
  deriving DecidableEq

/-- `UNIQUE (owner_user_id, create_idempotency_key)` -/
def ReminderRow.createKey (row : ReminderRow) : String × String :=
  (row.ownerUserId, row.createIdempotencyKey)

/-- The columns of `idx_follow_up_reminders_one_active_conversation`. -/
def ReminderRow.conversation (row : ReminderRow) : String × String × String :=
  (row.ownerUserId, row.mailboxAddress, row.conversationKey)

def ReminderRow.isActive (row : ReminderRow) : Bool := row.state = .active

/-- A row of `follow_up_reminder_operations`. -/
structure OperationRow where
  ownerUserId : String
  mailboxAddress : String
  reminderId : String
  operationId : String
  action : ReminderAction
  payloadFingerprint : OperationFingerprint
  result : FollowUpReminder
  createdAt : ℤ
  deriving DecidableEq

/-- `UNIQUE (owner_user_id, operation_id)` -/
def OperationRow.key (row : OperationRow) : String × String := (row.ownerUserId, row.operationId)

/-- `fromRow(row)`; none for the `RangeError` of an invalid date. -/
def fromRow (row : ReminderRow) : Option FollowUpReminder := do
  let baselineMessageDate ← toISOString row.baselineMessageDate
  let remindAt ← toISOString row.remindAt
  return {
    id := row.id
    ownerUserId := row.ownerUserId
    mailboxAddress := row.mailboxAddress
    conversationKey := row.conversationKey
    baselineMessageId := row.baselineMessageId
    baselineMessageDate, remindAt
    state := row.state
    resolutionReason := row.resolutionReason
    version := row.version
    createdAt := row.createdAt
    updatedAt := row.updatedAt
    resolvedAt := row.resolvedAt }

/-- An update of a reminder, and the operation that it belongs to. -/
structure Update where
  before : ReminderRow
  after : ReminderRow
  cause : Option (String × String)
  deriving DecidableEq

/-- The tables, the access, and what happened. -/
structure World where
  reminders : List ReminderRow
  operations : List OperationRow
  /-- The users with live access to a mailbox. -/
  access : List (String × String)
  drawn : List String
  updates : List Update
  refused : List (String × String)
  revoked : List (String × String)
  deriving DecidableEq

def World.start (access : List (String × String)) : World := ⟨[], [], access, [], [], [], []⟩

/-! ### Statements -/

/-- `ReminderStoreOperation` -/
structure ReminderStoreOperation where
  ownerUserId : String
  mailboxAddress : String
  reminderId : String
  operationId : String
  expectedVersion : ℕ
  action : ReminderAction
  fingerprint : OperationFingerprint
  occurredAt : ℤ
  deriving DecidableEq

/-- The fingerprint and the result of a create. -/
def World.findCreate (w : World) (key : String × String) :
    Option (CreateFingerprint × FollowUpReminder) :=
  (lookup ReminderRow.createKey key w.reminders).map fun row =>
    (row.createFingerprint, row.createResult)

/-- The fingerprint and the result of an operation. -/
def World.findOperation (w : World) (key : String × String) :
    Option (OperationFingerprint × FollowUpReminder) :=
  (lookup OperationRow.key key w.operations).map fun row => (row.payloadFingerprint, row.result)

/-- What a statement throws. -/
inductive DatabaseError
  | unique
  | notNull
  deriving DecidableEq

/-- `UPDATE follow_up_reminders SET … WHERE …` -/
def World.updateReminders (w : World) (p : ReminderRow → Bool) (f : ReminderRow → ReminderRow)
    (cause : Option (String × String)) : World :=
  { w with
    reminders := updateWhere p f w.reminders
    updates := w.updates ++ (w.reminders.filter p).map fun row => ⟨row, f row, cause⟩ }

def World.setAccess (w : World) (pair : String × String) (allowed : Bool) : World :=
  if allowed then { w with access := pair :: w.access }
  else { w with access := w.access.filter (· ≠ pair), revoked := pair :: w.revoked }

/-- Live access to a mailbox. -/
def World.allows (w : World) (mailboxAddress userId : String) : Bool :=
  w.access.contains (userId, mailboxAddress)

/-- What the `INSERT` of `createOrReplay` writes. -/
def insertedRow (row : FollowUpReminder) (baselineMessageDate remindAt : ℤ)
    (idempotencyKey : String) (fingerprint : CreateFingerprint) : ReminderRow where
  id := row.id
  ownerUserId := row.ownerUserId
  mailboxAddress := row.mailboxAddress
  conversationKey := row.conversationKey
  baselineMessageId := row.baselineMessageId
  baselineMessageDate := baselineMessageDate
  remindAt := remindAt
  state := .active
  resolutionReason := none
  createIdempotencyKey := idempotencyKey
  createFingerprint := fingerprint
  createResult := row
  version := row.version
  createdAt := row.createdAt
  updatedAt := row.updatedAt
  resolvedAt := none

/-- What the unique constraints do not allow beside a new reminder. -/
def ReminderRow.clashes (new other : ReminderRow) : Bool :=
  other.id = new.id || other.createKey = new.createKey ||
    (other.isActive && other.conversation = new.conversation)

/-- The `INSERT` of `createOrReplay`: whether a row was inserted. A date that is not a number is
bound as `NULL`. -/
def World.insertReminder (w : World) (row : FollowUpReminder)
    (baselineMessageDate remindAt : Option ℤ)
    (idempotencyKey : String) (fingerprint : CreateFingerprint) :
    Except DatabaseError Bool × World :=
  if !w.allows row.mailboxAddress row.ownerUserId then
    (.ok false, { w with refused := (row.ownerUserId, row.mailboxAddress) :: w.refused })
  else match baselineMessageDate, remindAt with
    | some baselineMessageDate, some remindAt =>
        let new := insertedRow row baselineMessageDate remindAt idempotencyKey fingerprint
        if w.reminders.any new.clashes then (.error .unique, w)
        else (.ok true, { w with reminders := w.reminders ++ [new] })
    | _, _ => (.error .notNull, w)

/-- The condition of the `UPDATE` of `applyOperation`. -/
def ReminderStoreOperation.applies (input : ReminderStoreOperation) (w : World)
    (row : ReminderRow) : Bool :=
  row.id = input.reminderId && row.ownerUserId = input.ownerUserId &&
    row.mailboxAddress = input.mailboxAddress && row.isActive &&
    row.version = input.expectedVersion && w.allows input.mailboxAddress input.ownerUserId

/-- What the `UPDATE` of `applyOperation` sets. -/
def ReminderStoreOperation.set (input : ReminderStoreOperation) (remindAt : ℤ) (row : ReminderRow) :
    ReminderRow :=
  { row with
    remindAt
    state := match input.action with
      | .snooze _ => .active
      | .dismiss => .dismissed
      | .complete => .completed
    resolutionReason := match input.action with
      | .snooze _ => none
      | .dismiss => some .dismissed
      | .complete => some .manual
    version := row.version + 1
    updatedAt := input.occurredAt
    resolvedAt := match input.action with
      | .snooze _ => none
      | _ => some input.occurredAt }

/-- The batch of `applyOperation`: whether both statements changed a row. The second inserts just
if the first changed one row. -/
def World.applyBatch (w : World) (input : ReminderStoreOperation) (remindAt : Option ℤ)
    (next : FollowUpReminder) : Except DatabaseError Bool × World :=
  match w.reminders.countP (input.applies w), remindAt with
  | 0, _ => (.ok false, w)
  | _ + 1, none => (.error .notNull, w)
  | changes + 1, some remindAt =>
      let cause := (input.ownerUserId, input.operationId)
      let updated := w.updateReminders (input.applies w) (input.set remindAt) (some cause)
      if changes ≠ 0 then (.ok false, updated)
      else if w.operations.any fun other => other.key = cause then (.error .unique, w)
      else (.ok true, { updated with operations := w.operations ++ [{
        ownerUserId := input.ownerUserId
        mailboxAddress := input.mailboxAddress
        reminderId := input.reminderId
        operationId := input.operationId
        action := input.action
        payloadFingerprint := input.fingerprint
        result := next
        createdAt := input.occurredAt }] })

/-- What `completeForInboundReply` is asked for. -/
structure InboundReply where
  mailboxAddress : String
  conversationKey : String
  inboundMessageId : String
  inboundMessageDate : ℤ
  occurredAt : ℤ
  deriving DecidableEq

/-- The condition of the `UPDATE` of `completeForInboundReply`. -/
def InboundReply.completes (input : InboundReply) (w : World) (row : ReminderRow) : Bool :=
  row.mailboxAddress = input.mailboxAddress && row.conversationKey = input.conversationKey &&
    row.isActive && row.baselineMessageId ≠ input.inboundMessageId &&
    row.baselineMessageDate < input.inboundMessageDate &&
    w.allows row.mailboxAddress row.ownerUserId

/-- What the `UPDATE` of `completeForInboundReply` sets. -/
def InboundReply.set (input : InboundReply) (row : ReminderRow) : ReminderRow :=
  { row with
    state := .completed
    resolutionReason := some .inboundReply
    resolvedAt := some input.occurredAt
    updatedAt := input.occurredAt
    version := row.version + 1 }

/-! ### Operations -/

/-- What a call asks for. -/
inductive ReminderOp
  | canAccessMailbox (userId mailboxAddress : String)
  | findCreate (ownerUserId idempotencyKey : String)
  | insertReminder (row : FollowUpReminder) (baselineMessageDate remindAt : Option ℤ)
      (idempotencyKey : String) (fingerprint : CreateFingerprint)
  | findActive (ownerUserId mailboxAddress conversationKey : String)
  | findOperation (ownerUserId operationId : String)
  | getScoped (id ownerUserId mailboxAddress : String)
  | applyBatch (input : ReminderStoreOperation) (remindAt : Option ℤ) (next : FollowUpReminder)
  | completeForInboundReply (input : InboundReply)
  | createId
  /-- Access is given or taken away. -/
  | setAccess (userId mailboxAddress : String) (allowed : Bool)

abbrev ReminderOp.Answer : ReminderOp → Type
  | canAccessMailbox .. => Bool
  | findCreate .. => Option (CreateFingerprint × FollowUpReminder)
  | insertReminder .. => Except DatabaseError Bool
  | findActive .. => Option ReminderRow
  | findOperation .. => Option (OperationFingerprint × FollowUpReminder)
  | getScoped .. => Option ReminderRow
  | applyBatch .. => Except DatabaseError Bool
  | completeForInboundReply _ => ℕ
  | createId => String
  | setAccess .. => Unit

/-- What the database may answer and do. An id that is drawn is a fresh one. -/
def ReminderOp.Exec (op : ReminderOp) (w : World) (answer : op.Answer) (w' : World) : Prop :=
  match op, answer with
  | canAccessMailbox userId mailboxAddress, allowed =>
      allowed = w.allows mailboxAddress userId ∧ w' =
        if w.allows mailboxAddress userId then w
        else { w with refused := (userId, mailboxAddress) :: w.refused }
  | findCreate ownerUserId idempotencyKey, found =>
      found = w.findCreate (ownerUserId, idempotencyKey) ∧ w' = w
  | insertReminder row baselineMessageDate remindAt idempotencyKey fingerprint, answer =>
      (answer, w') = w.insertReminder row baselineMessageDate remindAt idempotencyKey fingerprint
  | findActive ownerUserId mailboxAddress conversationKey, found =>
      found = w.reminders.find? (fun row => row.isActive &&
        row.conversation = (ownerUserId, mailboxAddress, conversationKey)) ∧ w' = w
  | findOperation ownerUserId operationId, found =>
      found = w.findOperation (ownerUserId, operationId) ∧ w' = w
  | getScoped id ownerUserId mailboxAddress, found =>
      found = w.reminders.find? (fun row => row.id = id && row.ownerUserId = ownerUserId &&
        row.mailboxAddress = mailboxAddress) ∧ w' = w
  | applyBatch input remindAt next, answer => (answer, w') = w.applyBatch input remindAt next
  | completeForInboundReply input, changes =>
      changes = w.reminders.countP (input.completes w) ∧
        w' = w.updateReminders (input.completes w) input.set none
  | createId, id => id ∉ w.drawn ∧ w' = { w with drawn := id :: w.drawn }
  | setAccess userId mailboxAddress allowed, _ =>
      w' = w.setAccess (userId, mailboxAddress) allowed

end MailPortal.Reminders
