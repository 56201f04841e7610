import MailPortal.Reminders.Store

/-!
# The Reminder Service

`create`, `apply` and `completeForInboundReply` of the follow-up reminder service over the D1 store,
as programs that ask the database one statement or batch at a time. Between two of them other
clients may have theirs.

What comes from elsewhere is given to a program as a value: the clock, the anchor that the mailbox
resolves, and an input of the right shape. `Date.parse` and lower case are the host's.
-/

namespace MailPortal.Reminders

open Concurrent Prog

/-! ### Errors -/

inductive FollowUpReminderErrorCode
  | INVALID
  | FORBIDDEN
  | NOT_FOUND
  | ACTIVE_CONFLICT
  | STATE_CONFLICT
  | IDEMPOTENCY_CONFLICT
  deriving DecidableEq

/-- What a call throws. -/
inductive ReminderError
  /-- `FollowUpReminderError` -/
  | reminder (code : FollowUpReminderErrorCode) (message : String)
  /-- What the database throws. -/
  | database (error : DatabaseError)
  /-- The `RangeError` of an invalid date. -/
  | range
  deriving DecidableEq

def forbidden : ReminderError := .reminder .FORBIDDEN "Live mailbox access is required"

def notFuture : ReminderError :=
  .reminder .INVALID "Reminder time must be in the future and within one year"

def createConflict : ReminderError :=
  .reminder .IDEMPOTENCY_CONFLICT "Create operation ID was already used for different reminder data"

def operationConflict : ReminderError :=
  .reminder .IDEMPOTENCY_CONFLICT "Operation ID was already used for different reminder data"

/-! ### Inputs -/

/-- `z.string().trim().min(min).max(max)` -/
@[irreducible] def trimmedText (min max : ℕ) (text : String) : Option String :=
  if min ≤ codeUnits (trim text) ∧ codeUnits (trim text) ≤ max then some (trim text) else none

def boundedId : String → Option String := trimmedText 1 300

def operationId : String → Option String := trimmedText 8 200

/-- What a text is matched with, character by character. -/
inductive Glyph
  | digit
  | sign
  | char (c : Char)
  deriving DecidableEq

def Glyph.matches : Glyph → Char → Bool
  | digit, c => '0' ≤ c && c ≤ '9'
  | sign, c => c = '+' || c = '-'
  | char d, c => c = d

/-- The text is spelled as the glyphs say. -/
def spelled : List Glyph → List Char → Bool
  | [], [] => true
  | g :: glyphs, c :: cs => g.matches c && spelled glyphs cs
  | _, _ => false

/-- `^\d{4}-\d{2}-\d{2}T\d{2}:\d{2}:\d{2}(?:\.\d{1,3})?(?:Z|[+-]\d{2}:\d{2})$` -/
def isInstantText (text : String) : Bool :=
  let d := Glyph.digit
  let start := [d, d, d, d, .char '-', d, d, .char '-', d, d, .char 'T', d, d, .char ':', d, d,
    .char ':', d, d]
  let fractions := [[], [.char '.', d], [.char '.', d, d], [.char '.', d, d, d]]
  let zones := [[.char 'Z'], [.sign, d, d, .char ':', d, d]]
  fractions.any fun fraction => zones.any fun zone =>
    spelled (start ++ fraction ++ zone) text.toList

def isoInstant (host : HostRuntime) (text : String) : Bool :=
  codeUnits text ≤ 40 && isInstantText text && (host.dateParse text).isSome

/-- An input of `create`. -/
structure CreateReminder where
  emailId : String
  remindAt : String
  idempotencyKey : String
  deriving DecidableEq

/-- `CreateReminderSchema` -/
def CreateReminder.parse (host : HostRuntime) (input : CreateReminder) : Option CreateReminder := do
  let emailId ← boundedId input.emailId
  guard (isoInstant host input.remindAt)
  let idempotencyKey ← operationId input.idempotencyKey
  return { emailId, remindAt := input.remindAt, idempotencyKey }

/-- An input of `apply`. -/
structure ReminderOperation where
  operationId : String
  expectedVersion : ℕ
  action : ReminderAction
  deriving DecidableEq

/-- `ReminderOperationSchema` -/
def ReminderOperation.parse (host : HostRuntime) (input : ReminderOperation) :
    Option ReminderOperation := do
  let operationId ← Reminders.operationId input.operationId
  guard (1 ≤ input.expectedVersion)
  match input.action with
  | .snooze remindAt => guard (isoInstant host remindAt)
  | _ => pure ()
  return { input with operationId }

/-- `StoredInboundReply` -/
structure StoredInboundReply where
  mailboxAddress : String
  conversationKey : String
  inboundMessageId : String
  inboundMessageDate : String
  deriving DecidableEq

/-- `AuthoritativeReminderAnchor` -/
structure AuthoritativeReminderAnchor where
  conversationKey : String
  baselineMessageId : String
  baselineMessageDate : String
  deriving DecidableEq

/-- What the language and the schema library bring: lower case, dates, and what an e-mail address
is. -/
structure ReminderHost extends HostRuntime where
  toLowerCase : String → String
  isEmail : String → Bool

/-! ### Time -/

/-- The same time of the day one year later; none when there is no such time value. -/
def oneYearHorizon (now : ℤ) : Option ℤ :=
  if now.natAbs ≤ maxTimeValue.toNat then
    let days := now.fdiv 86400000
    let (year, month, day) := civilFromDays days
    let horizon := daysFromCivil (year + 1) month day * 86400000 + (now - days * 86400000)
    if horizon.natAbs ≤ maxTimeValue.toNat then some horizon else none
  else none

/-- `requireFutureReminder(remindAt, now)` does not throw. -/
def isFutureReminder (host : HostRuntime) (remindAt : String) (now : ℤ) : Bool :=
  (host.dateParse remindAt).any fun due =>
    now < due && (oneYearHorizon now).all fun horizon => due ≤ horizon

/-- `apply` looks at the clock for a snooze. -/
def ReminderAction.isFuture (host : HostRuntime) (now : ℤ) : ReminderAction → Bool
  | snooze remindAt => isFutureReminder host remindAt now
  | _ => true

/-! ### The store -/

/-- A program that asks the database. -/
abbrev Asking (α : Type) := Prog ReminderOp ReminderOp.Answer α

/-- Ask the database. -/
abbrev query (op : ReminderOp) : Asking op.Answer := ask op

/-- The answer to a request under an idempotency key that was used before. -/
def replayOf {φ : Type} [DecidableEq φ] (prior : φ × FollowUpReminder) (fingerprint : φ)
    (conflict : ReminderError) : Except ReminderError FollowUpReminder :=
  if prior.1 = fingerprint then .ok prior.2 else .error conflict

/-- `createOrReplay`, with the errors that `create` makes of its results. -/
def createOrReplay (host : ReminderHost) (row : FollowUpReminder) (idempotencyKey : String)
    (fingerprint : CreateFingerprint) : Asking (Except ReminderError FollowUpReminder) := do
  let prior : Option (CreateFingerprint × FollowUpReminder) ←
    query (.findCreate row.ownerUserId idempotencyKey)
  match prior with
  | some prior => return replayOf prior fingerprint createConflict
  | none =>
      let inserted : Except DatabaseError Bool ← query (.insertReminder row
        (host.dateParse row.baselineMessageDate) (host.dateParse row.remindAt) idempotencyKey
        fingerprint)
      match inserted with
      | .ok inserted => return if inserted then .ok row else .error forbidden
      | .error .notNull => return .error (.database .notNull)
      | .error .unique =>
          let replay : Option (CreateFingerprint × FollowUpReminder) ←
            query (.findCreate row.ownerUserId idempotencyKey)
          match replay with
          | some replay => return replayOf replay fingerprint createConflict
          | none =>
              let active : Option ReminderRow ←
                query (.findActive row.ownerUserId row.mailboxAddress row.conversationKey)
              match active with
              | none => return .error (.database .unique)
              | some active =>
                  return if (fromRow active).isSome then
                    .error (.reminder .ACTIVE_CONFLICT
                      "This conversation already has an active personal reminder")
                  else .error .range

/-- `nextReminder(current, input)` -/
def nextReminder (current : FollowUpReminder) (input : ReminderStoreOperation) :
    FollowUpReminder :=
  let next := { current with version := current.version + 1, updatedAt := input.occurredAt }
  match input.action with
  | .snooze remindAt => { next with remindAt }
  | .dismiss =>
      { next with
        state := .dismissed
        resolutionReason := some .dismissed
        resolvedAt := some input.occurredAt }
  | .complete =>
      { next with
        state := .completed
        resolutionReason := some .manual
        resolvedAt := some input.occurredAt }

/-- The `remindAt` that `applyOperation` binds. -/
def boundRemindAt (host : ReminderHost) (current : FollowUpReminder)
    (input : ReminderStoreOperation) : Option ℤ :=
  match input.action with
  | .snooze remindAt => host.dateParse remindAt
  | _ => host.dateParse current.remindAt

def stateConflict : ReminderError :=
  .reminder .STATE_CONFLICT "Reminder changed; refresh before retrying"

def reminderNotFound : ReminderError := .reminder .NOT_FOUND "Reminder was not found"

/-- What is left to do when the batch of `applyOperation` did not change both tables. -/
def reclassify (input : ReminderStoreOperation) :
    Asking (Except ReminderError FollowUpReminder) := do
  let allowed : Bool ← query (.canAccessMailbox input.ownerUserId input.mailboxAddress)
  if !allowed then return .error forbidden
  else
    let replay : Option (OperationFingerprint × FollowUpReminder) ←
      query (.findOperation input.ownerUserId input.operationId)
    match replay with
    | some replay => return replayOf replay input.fingerprint operationConflict
    | none =>
        let latest : Option ReminderRow ←
          query (.getScoped input.reminderId input.ownerUserId input.mailboxAddress)
        match latest with
        | none => return .error reminderNotFound
        | some latest => return .error (if (fromRow latest).isSome then stateConflict else .range)

/-- `applyOperation`, with the errors that `mapMutation` makes of its results. -/
def applyOperation (host : ReminderHost) (input : ReminderStoreOperation) :
    Asking (Except ReminderError FollowUpReminder) := do
  let prior : Option (OperationFingerprint × FollowUpReminder) ←
    query (.findOperation input.ownerUserId input.operationId)
  match prior with
  | some prior => return replayOf prior input.fingerprint operationConflict
  | none =>
      let row : Option ReminderRow ←
        query (.getScoped input.reminderId input.ownerUserId input.mailboxAddress)
      match row.map fromRow with
      | none => return .error reminderNotFound
      | some none => return .error .range
      | some (some current) =>
          if current.state ≠ .active ∨ current.version ≠ input.expectedVersion then
            return .error stateConflict
          else
            let next := nextReminder current input
            let remindAt := boundRemindAt host current input
            let applied : Except DatabaseError Bool ← query (.applyBatch input remindAt next)
            match applied with
            | .ok true => return .ok next
            | .ok false => reclassify input
            | .error .unique => reclassify input
            | .error .notNull => return .error (.database .notNull)

/-! ### The service -/

/-- The checks that `create` makes of an anchor. -/
def AuthoritativeReminderAnchor.isUsable (host : HostRuntime) (timestamp : ℤ)
    (anchor : AuthoritativeReminderAnchor) : Bool :=
  (boundedId anchor.conversationKey).isSome && (boundedId anchor.baselineMessageId).isSome &&
    isoInstant host anchor.baselineMessageDate &&
    !(host.dateParse anchor.baselineMessageDate).any (timestamp < ·)

/-- The row that `create` asks the store for. -/
def newReminder (id userId mailbox : String) (anchor : AuthoritativeReminderAnchor)
    (remindAt : String) (timestamp : ℤ) : FollowUpReminder where
  id := id
  ownerUserId := userId
  mailboxAddress := mailbox
  conversationKey := anchor.conversationKey
  baselineMessageId := anchor.baselineMessageId
  baselineMessageDate := anchor.baselineMessageDate
  remindAt := remindAt
  state := .active
  resolutionReason := none
  version := 1
  createdAt := timestamp
  updatedAt := timestamp
  resolvedAt := none

/-- `create`, with the time of the clock and the anchor of the email. -/
def create (host : ReminderHost) (userId mailboxAddress : String) (input : CreateReminder)
    (timestamp : ℤ) (anchor : Option AuthoritativeReminderAnchor) :
    Asking (Except ReminderError FollowUpReminder) := do
  let mailbox := host.toLowerCase mailboxAddress
  let allowed : Bool ← query (.canAccessMailbox userId mailbox)
  if !allowed then return .error forbidden
  else match input.parse host.toHostRuntime with
    | none => return .error (.reminder .INVALID "Reminder definition is invalid")
    | some parsed =>
        if !isFutureReminder host.toHostRuntime parsed.remindAt timestamp then
          return .error notFuture
        else
          let fingerprint : CreateFingerprint := ⟨mailbox, parsed.emailId, parsed.remindAt⟩
          let replay : Option (CreateFingerprint × FollowUpReminder) ←
            query (.findCreate userId parsed.idempotencyKey)
          match replay with
          | some replay => return replayOf replay fingerprint createConflict
          | none =>
              match anchor with
              | none => return .error (.reminder .NOT_FOUND
                  "Email was not found or cannot have a reminder")
              | some anchor =>
                  if !anchor.isUsable host.toHostRuntime timestamp then
                    return .error (.reminder .INVALID
                      "Baseline message date cannot be in the future")
                  else
                    let id : String ← query .createId
                    createOrReplay host
                      (newReminder id userId mailbox anchor parsed.remindAt timestamp)
                      parsed.idempotencyKey fingerprint

/-- `apply`, with the time of the clock. -/
def apply (host : ReminderHost) (userId mailboxAddress reminderId : String)
    (input : ReminderOperation) (timestamp : ℤ) :
    Asking (Except ReminderError FollowUpReminder) := do
  let mailbox := host.toLowerCase mailboxAddress
  let allowed : Bool ← query (.canAccessMailbox userId mailbox)
  if !allowed then return .error forbidden
  else match boundedId reminderId, input.parse host.toHostRuntime with
    | some id, some parsed =>
        if !parsed.action.isFuture host.toHostRuntime timestamp then return .error notFuture
        else applyOperation host {
          ownerUserId := userId
          mailboxAddress := mailbox
          reminderId := id
          operationId := parsed.operationId
          expectedVersion := parsed.expectedVersion
          action := parsed.action
          fingerprint := ⟨mailbox, id, parsed.action, parsed.expectedVersion⟩
          occurredAt := timestamp }
    | _, _ => return .error (.reminder .INVALID "Reminder operation is invalid")

/-- `completeForInboundReply`, with the time of the clock. -/
def completeForInboundReply (host : ReminderHost) (input : StoredInboundReply) (timestamp : ℤ) :
    Asking (Except ReminderError ℕ) :=
  let mailboxAddress := (trimmedText 0 320 input.mailboxAddress).filter (host.isEmail ·)
  match mailboxAddress, boundedId input.conversationKey, boundedId input.inboundMessageId,
      (host.dateParse input.inboundMessageDate).filter
        fun _ => isoInstant host.toHostRuntime input.inboundMessageDate with
  | some mailboxAddress, some conversationKey, some inboundMessageId, some inboundMessageDate => do
      let changes : ℕ ← query (.completeForInboundReply {
        mailboxAddress := host.toLowerCase mailboxAddress
        conversationKey, inboundMessageId, inboundMessageDate
        occurredAt := timestamp })
      return .ok changes
  | _, _, _, _ => return .error (.reminder .INVALID "Inbound reply reference is invalid")

/-! ### Clients -/

/-- What a client asks for. -/
inductive Call
  | create (userId mailboxAddress : String) (input : CreateReminder) (timestamp : ℤ)
      (anchor : Option AuthoritativeReminderAnchor)
  | apply (userId mailboxAddress reminderId : String) (input : ReminderOperation) (timestamp : ℤ)
  | completeForInboundReply (input : StoredInboundReply) (timestamp : ℤ)
  | setAccess (userId mailboxAddress : String) (allowed : Bool)
  deriving DecidableEq

/-- What a client gets. -/
inductive Reply
  | reminder (answer : Except ReminderError FollowUpReminder)
  | count (answer : Except ReminderError ℕ)
  | done

/-- A call that has been answered, with the world that it started in. -/
structure Answered where
  call : Call
  before : World
  reply : Reply

/-- The program of a call. -/
def Call.program (host : ReminderHost) : Call → Asking Reply
  | create userId mailboxAddress input timestamp anchor => do
      let answer ← Reminders.create host userId mailboxAddress input timestamp anchor
      return .reminder answer
  | apply userId mailboxAddress reminderId input timestamp => do
      let answer ← Reminders.apply host userId mailboxAddress reminderId input timestamp
      return .reminder answer
  | completeForInboundReply input timestamp => do
      let answer ← Reminders.completeForInboundReply host input timestamp
      return .count answer
  | setAccess userId mailboxAddress allowed => do
      query (.setAccess userId mailboxAddress allowed)
      return .done

end MailPortal.Reminders
