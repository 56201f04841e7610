import MailPortal.Lib.Sql
import MailPortal.Outbox.Service
import MailPortal.Outbox.Snapshot

/-!
# The Durable Object Store of the Outbox

The rows of `outbound-storage.ts` as they lie in the tables, and how a row becomes a record of the
service. A row may hold anything its columns can hold: a status or a phase of no meaning, a time
that is no time, a count below zero. `deliveryRowToStored` refuses such rows, `hydrateDelivery` puts
a record of status `unknown` in their place.

`StorageTables` carries the keys of the tables. `storageTransaction` gives the service the reads and
writes that its recovery reaches.
-/

namespace MailPortal.Outbox

/-! ### Rows -/

/-- A delivery, as it is stored. -/
structure DeliveryRow where
  id : String
  emailId : String
  sourceDraftId : Option String := none
  sourceDraftVersion : Option JsNumber := none
  idempotencyKey : String
  commandFingerprint : Option String := none
  kind : String
  source : String
  actorKind : String
  actorId : Option String := none
  status : String
  availableAt : String
  undoUntil : String
  scheduledFor : Option String := none
  nextAttemptAt : Option String := none
  attemptCount : JsNumber
  maxAttempts : JsNumber
  preflightDeferralCount : JsNumber
  cancellationRecoveryAttemptCount : JsNumber
  retryOriginStatus : Option String := none
  dispatchPhase : Option String := none
  activeAttemptId : Option String := none
  leaseToken : Option String := none
  leaseExpiresAt : Option String := none
  sesMessageId : Option String := none
  lastErrorCode : Option String := none
  lastErrorMessage : Option String := none
  createdAt : String
  updatedAt : String
  sentAt : Option String := none
  failedAt : Option String := none
  unknownAt : Option String := none
  cancelledAt : Option String := none
  acceptedAttemptCount : JsNumber
  duplicateAcceptanceAt : Option String := none

/-- An attempt, as it is stored. -/
structure AttemptRow where
  id : String
  deliveryId : String
  attemptNumber : JsNumber
  status : String
  leaseToken : String
  startedAt : String
  finishedAt : Option String := none
  sesMessageId : Option String := none
  httpStatus : Option JsNumber := none
  errorCode : Option String := none
  errorMessage : Option String := none
  providerState : String
  providerEventAt : Option String := none
  providerEventId : Option String := none

/-- A row of `emails`, as far as the outbox reads it. -/
structure EmailRow where
  id : String
  folderId : String
  sender : Option String := none
  rawHeaders : Option String := none
  draftVersion : JsNumber

/-- The tables, with the primary key of the deliveries and their foreign key. -/
structure StorageTables where
  deliveries : List DeliveryRow
  attempts : List AttemptRow
  emails : List EmailRow
  /-- The deliveries that `outbound_acceptance_recovery` names. -/
  acceptanceRecovery : List String
  deliveryKey : (deliveries.map DeliveryRow.id).Nodup
  emailExists : ∀ row ∈ deliveries, ∃ email ∈ emails, email.id = row.emailId

/-- What the store is given: `toLowerCase` of its host, and the `strftime` of its database. -/
structure StorageHost where
  toLowerCase : String → String
  /-- `strftime('%Y-%m-%dT%H:%M:%fZ', x)` -/
  isoText : String → Option String
  /-- `strftime('%s', x)` -/
  seconds : String → Option String
  /-- Whether a text is a date does not depend on the format. -/
  seconds_null : ∀ x, seconds x = none ↔ isoText x = none

/-! ### From rows to records -/

/-- `requiredEnum`; `none` when it throws. -/
def requiredEnum {T : Type} (allowed : List T) (text : T → String) (value : String) : Option T :=
  allowed.find? fun t => text t = value

def OutboundDeliveryKind.text : OutboundDeliveryKind → String
  | .compose => "compose"
  | .reply => "reply"
  | .forward => "forward"
  | .bulk => "bulk"

def OutboundDeliverySource.text : OutboundDeliverySource → String
  | .ui => "ui"
  | .api => "api"
  | .mcp => "mcp"
  | .agent => "agent"
  | .rule => "rule"
  | .bulk => "bulk"

def OutboundDeliveryActorKind.text : OutboundDeliveryActorKind → String
  | .user => "user"
  | .mcp => "mcp"
  | .agent => "agent"
  | .rule => "rule"
  | .system => "system"

def DispatchPhase.text : DispatchPhase → String
  | .preflight => "preflight"
  | .provider => "provider"

def OutboundDeliveryAttemptStatus.text : OutboundDeliveryAttemptStatus → String
  | .sending => "sending"
  | .accepted => "accepted"
  | .rejectedRetryable => "rejected_retryable"
  | .rejectedPermanent => "rejected_permanent"
  | .unknown => "unknown"

def AcceptedAttemptProviderState.text : AcceptedAttemptProviderState → String
  | .none => "none"
  | .delivered => "delivered"
  | .bounced => "bounced"
  | .complained => "complained"
  | .bounceScopeUnknown => "bounce_scope_unknown"

def deliveryKind : String → Option OutboundDeliveryKind :=
  requiredEnum [.compose, .reply, .forward, .bulk] OutboundDeliveryKind.text

def deliveryStatus : String → Option OutboundDeliveryStatus :=
  requiredEnum [.queued, .sending, .retrying, .sent, .bounced, .failed, .unknown, .cancelled]
    OutboundDeliveryStatus.text

def deliverySource : String → Option OutboundDeliverySource :=
  requiredEnum [.ui, .api, .mcp, .agent, .rule, .bulk] OutboundDeliverySource.text

def deliveryActorKind : String → Option OutboundDeliveryActorKind :=
  requiredEnum [.user, .mcp, .agent, .rule, .system] OutboundDeliveryActorKind.text

def deliveryDispatchPhase : String → Option DispatchPhase :=
  requiredEnum [.preflight, .provider] DispatchPhase.text

def attemptStatus : String → Option OutboundDeliveryAttemptStatus :=
  requiredEnum [.sending, .accepted, .rejectedRetryable, .rejectedPermanent, .unknown]
    OutboundDeliveryAttemptStatus.text

def attemptProviderState : String → Option AcceptedAttemptProviderState :=
  requiredEnum [.none, .delivered, .bounced, .complained, .bounceScopeUnknown]
    AcceptedAttemptProviderState.text

/-- The natural number that a column holds. -/
def natural (x : JsNumber) : Option ℕ :=
  x.bind fun q => if q.den = 1 ∧ 0 ≤ q.num then some q.num.toNat else none

/-- A time that may be absent. -/
def isOptionalTimestamp (value : Option String) : Bool := value.all isCanonicalUtcTimestamp

/-- `sourceDraftFromStorage`; `none` when it throws. -/
def sourceDraftFromStorage (draftId : Option String) (draftVersion : Option JsNumber) :
    Option (Option String × Option JsNumber) :=
  match draftId, draftVersion with
  | none, none => some (none, none)
  | some id, some version =>
      if id ≠ "" && (natural version).any (1 ≤ ·) then some (some id, some version) else none
  | _, _ => none

/-- The origin of a retry, where it is one of the two the service knows. -/
def retryOrigin (row : DeliveryRow) : Option RetryOriginStatus :=
  row.retryOriginStatus.bind (requiredEnum [.failed, .unknown] RetryOriginStatus.text)

/-- The tests of `deliveryRowToStored` on what is not an enumeration. -/
def coreFieldsValid (row : DeliveryRow) : Bool :=
  [row.createdAt, row.updatedAt, row.availableAt, row.undoUntil].all isCanonicalUtcTimestamp &&
    [row.scheduledFor, row.nextAttemptAt, row.leaseExpiresAt, row.duplicateAcceptanceAt,
      row.sentAt, row.failedAt, row.unknownAt, row.cancelledAt].all isOptionalTimestamp &&
    (natural row.attemptCount).isSome && (natural row.maxAttempts).any (1 ≤ ·) &&
    (natural row.preflightDeferralCount).isSome &&
    (natural row.cancellationRecoveryAttemptCount).isSome &&
    (row.retryOriginStatus.isNone || (retryOrigin row).isSome) &&
    ((retryOrigin row).isNone || row.status ∈ ["queued", "retrying", "sending"]) &&
    (natural row.acceptedAttemptCount).isSome &&
    (row.status ≠ "sent" ||
      row.sesMessageId.any (fun id => !isBlank id) && row.sentAt.any isCanonicalUtcTimestamp)

/-- `deliveryRowToStored`; `none` when it throws. -/
def deliveryRowToStored (row : DeliveryRow) (mailboxId : String) :
    Option StoredOutboundDelivery := do
  guard (coreFieldsValid row)
  let attemptCount ← natural row.attemptCount
  let maxAttempts ← natural row.maxAttempts
  let preflightDeferralCount ← natural row.preflightDeferralCount
  let cancellationRecoveryAttemptCount ← natural row.cancellationRecoveryAttemptCount
  let acceptedAttemptCount ← natural row.acceptedAttemptCount
  let dispatchPhase := row.dispatchPhase.bind deliveryDispatchPhase
  let (draftId, draftVersion) ← sourceDraftFromStorage row.sourceDraftId row.sourceDraftVersion
  let kind ← deliveryKind row.kind
  let status ← deliveryStatus row.status
  let source ← deliverySource row.source
  let actorKind ← deliveryActorKind row.actorKind
  some
    { id := row.id
      emailId := row.emailId
      draftId := draftId
      draftVersion := draftVersion
      mailboxId := mailboxId
      kind := kind
      status := status
      idempotencyKey := row.idempotencyKey
      commandFingerprint := row.commandFingerprint
      source := source
      actor := { kind := actorKind, id := if truthy row.actorId then row.actorId else none }
      createdAt := row.createdAt
      updatedAt := row.updatedAt
      availableAt := row.availableAt
      undoUntil := row.undoUntil
      scheduledFor := row.scheduledFor
      nextAttemptAt := row.nextAttemptAt
      attemptCount := attemptCount
      maxAttempts := maxAttempts
      preflightDeferralCount := preflightDeferralCount
      cancellationRecoveryAttemptCount := cancellationRecoveryAttemptCount
      retryOriginStatus := retryOrigin row
      dispatchPhase := dispatchPhase
      activeAttemptId := row.activeAttemptId
      acceptedAttemptCount := acceptedAttemptCount
      duplicateAcceptanceAt := row.duplicateAcceptanceAt
      recoveryIntegrityCode :=
        if row.dispatchPhase.isSome && dispatchPhase.isNone then some .dispatchPhaseInvalid
        else none
      leaseToken := row.leaseToken
      leaseExpiresAt := row.leaseExpiresAt
      sesMessageId := row.sesMessageId
      lastErrorCode := row.lastErrorCode
      lastErrorMessage := row.lastErrorMessage
      sentAt := row.sentAt
      failedAt := row.failedAt
      unknownAt := row.unknownAt
      cancelledAt := row.cancelledAt }

/-- `1970-01-01T00:00:00.000Z`, for a time that is none. -/
def epoch : String := "1970-01-01T00:00:00.000Z"

/-- The record that stands for a row that is refused. -/
def refusedDelivery (row : DeliveryRow) (mailboxId : Option String) : StoredOutboundDelivery :=
  let timeOr (value : String) := if isCanonicalUtcTimestamp value then value else epoch
  let countOr (x : JsNumber) := (natural x).getD 0
  { id := row.id
    emailId := row.emailId
    mailboxId := mailboxId.getD ""
    kind := (deliveryKind row.kind).getD .compose
    status := .unknown
    idempotencyKey := row.idempotencyKey
    commandFingerprint := row.commandFingerprint
    source := (deliverySource row.source).getD .api
    actor := { kind := .system }
    createdAt := timeOr row.createdAt
    updatedAt := timeOr row.updatedAt
    availableAt := timeOr row.availableAt
    undoUntil := timeOr row.undoUntil
    attemptCount := countOr row.attemptCount
    maxAttempts := ((natural row.maxAttempts).filter (0 < ·)).getD 1
    preflightDeferralCount := countOr row.preflightDeferralCount
    cancellationRecoveryAttemptCount := countOr row.cancellationRecoveryAttemptCount
    acceptedAttemptCount := countOr row.acceptedAttemptCount
    unknownAt := some (timeOr row.updatedAt)
    lastErrorCode := some "outbound_delivery_record_invalid"
    lastErrorMessage :=
      some "The local outbound record is inconsistent and requires audited repair."
    storageIntegrityCode := some .deliveryRecordInvalid }

def emailOf (t : StorageTables) (emailId : String) : Option EmailRow :=
  t.emails.find? fun email => email.id = emailId

/-- The `mailboxId` of the snapshot, or else the sender's address. -/
def mailboxIdentity (host : StorageHost) (t : StorageTables) (row : DeliveryRow) : Option String :=
  let email := emailOf t row.emailId
  let snapshot := deserializeOutboundSnapshot host.toLowerCase (email.bind EmailRow.rawHeaders)
  match snapshot.bind fun s => (field s "mailboxId").bind asString with
  | some mailboxId => some mailboxId
  | none => normalizeMailAddress host.toLowerCase ((email.bind EmailRow.sender).getD "")

/-- What `#hydrateDelivery` tries: no mailbox identity is a reason to throw. -/
def tryHydrate (host : StorageHost) (t : StorageTables) (row : DeliveryRow) :
    Option StoredOutboundDelivery :=
  ((mailboxIdentity host t row).filter (· ≠ "")).bind (deliveryRowToStored row)

def retiredOutboundFolder : String := "_cancelled_outbound"

/-- `#hydrateDelivery`, which catches what it throws. -/
def hydrateDelivery (host : StorageHost) (t : StorageTables) (row : DeliveryRow) :
    StoredOutboundDelivery :=
  let delivery := (tryHydrate host t row).getD (refusedDelivery row (mailboxIdentity host t row))
  if delivery.status = .cancelled then
    { delivery with
      cancelRecoveryPending :=
        some ((emailOf t row.emailId).map EmailRow.folderId ≠ some retiredOutboundFolder) }
  else delivery

/-- The phase and the attempt of a row agree. -/
def phaseMetadataValid (row : DeliveryRow) : Bool :=
  (row.dispatchPhase.isNone && row.activeAttemptId.isNone) ||
    (row.dispatchPhase = some "preflight" && row.activeAttemptId.isNone) ||
    (row.dispatchPhase = some "provider" && row.activeAttemptId.isSome)

/-- The lease of a row has a token and a time. -/
def leaseMetadataValid (row : DeliveryRow) : Bool :=
  row.leaseToken.any (fun token => !isBlank token) && row.leaseExpiresAt.any isCanonicalUtcTimestamp

/-- `#hydrateExpiredDelivery`. -/
def hydrateExpiredDelivery (host : StorageHost) (t : StorageTables) (row : DeliveryRow) :
    StoredOutboundDelivery :=
  let hydrated := hydrateDelivery host t row
  if hydrated.storageIntegrityCode.isSome then
    { hydrated with recoveryIntegrityCode := some .deliveryRecordInvalid }
  else if phaseMetadataValid row && leaseMetadataValid row then hydrated
  else if phaseMetadataValid row then
    { hydrated with recoveryIntegrityCode := some .sendingLeaseInvalid }
  else
    { hydrated with
      dispatchPhase := none
      activeAttemptId := none
      recoveryIntegrityCode := some .dispatchPhaseInvalid }

/-- `attemptRowToStored`, with its tests. -/
def attemptRowToStored (row : AttemptRow) : OutboundDeliveryAttempt :=
  let providerEventPairValid :=
    (row.providerEventAt.isNone && row.providerEventId.isNone) ||
      (row.providerEventAt.any isCanonicalUtcTimestamp && truthy row.providerEventId)
  let stateShapeInvalid :=
    (row.status = "sending" &&
      (row.finishedAt.isSome || row.sesMessageId.isSome || row.httpStatus.isSome ||
        row.errorCode.isSome || row.errorMessage.isSome || row.providerState ≠ "none" ||
        row.providerEventAt.isSome || row.providerEventId.isSome)) ||
    (row.status ≠ "sending" && !row.finishedAt.any isCanonicalUtcTimestamp) ||
    (row.status = "accepted" && !row.sesMessageId.any (fun id => !isBlank id)) ||
    (row.status ≠ "accepted" && row.providerState ≠ "none") ||
    !providerEventPairValid ||
    row.httpStatus.any (fun status => !(natural status).any fun n => 100 ≤ n && n ≤ 599)
  let integrityInvalid :=
    row.id = "" || row.deliveryId = "" || !(natural row.attemptNumber).any (1 ≤ ·) ||
      row.leaseToken = "" || stateShapeInvalid || !isCanonicalUtcTimestamp row.startedAt ||
      !isOptionalTimestamp row.finishedAt || !isOptionalTimestamp row.providerEventAt ||
      (attemptStatus row.status).isNone || (attemptProviderState row.providerState).isNone
  { id := row.id
    deliveryId := row.deliveryId
    attemptNumber := row.attemptNumber
    status := (attemptStatus row.status).getD .unknown
    leaseToken := row.leaseToken
    startedAt := row.startedAt
    finishedAt := row.finishedAt
    sesMessageId := row.sesMessageId
    httpStatus := row.httpStatus
    errorCode := row.errorCode
    errorMessage := row.errorMessage
    providerState := (attemptProviderState row.providerState).getD .none
    providerEventAt := row.providerEventAt
    providerEventId := row.providerEventId
    storageIntegrityCode := if integrityInvalid then some .attemptRecordInvalid else none }

/-! ### Reads and writes -/

/-- An `UPDATE` of the deliveries that leaves their keys. -/
def updateDeliveries (f : DeliveryRow → DeliveryRow) (hid : ∀ row, (f row).id = row.id)
    (hemail : ∀ row, (f row).emailId = row.emailId) (t : StorageTables) : StorageTables :=
  { t with
    deliveries := t.deliveries.map f
    deliveryKey := by
      have hkeys : (t.deliveries.map f).map DeliveryRow.id = t.deliveries.map DeliveryRow.id := by
        rw [List.map_map]
        exact List.map_congr_left fun row _ => hid row
      rw [hkeys]
      exact t.deliveryKey
    emailExists := by
      intro row hrow
      obtain ⟨old, hold, rfl⟩ := List.mem_map.mp hrow
      rw [hemail]
      exact t.emailExists old hold }

/-- The columns that `updateDelivery` sets. -/
def setDelivery (delivery : StoredOutboundDelivery) (row : DeliveryRow) : DeliveryRow :=
  { row with
    actorKind := delivery.actor.kind.text
    actorId := delivery.actor.id
    status := delivery.status.text
    availableAt := delivery.availableAt
    scheduledFor := delivery.scheduledFor
    nextAttemptAt := delivery.nextAttemptAt
    attemptCount := some delivery.attemptCount
    maxAttempts := some delivery.maxAttempts
    preflightDeferralCount := some delivery.preflightDeferralCount
    cancellationRecoveryAttemptCount := some delivery.cancellationRecoveryAttemptCount
    retryOriginStatus := delivery.retryOriginStatus.map RetryOriginStatus.text
    dispatchPhase := delivery.dispatchPhase.map DispatchPhase.text
    activeAttemptId := delivery.activeAttemptId
    leaseToken := delivery.leaseToken
    leaseExpiresAt := delivery.leaseExpiresAt
    sesMessageId := delivery.sesMessageId
    lastErrorCode := delivery.lastErrorCode
    lastErrorMessage := delivery.lastErrorMessage
    updatedAt := delivery.updatedAt
    sentAt := delivery.sentAt
    failedAt := delivery.failedAt
    unknownAt := delivery.unknownAt
    cancelledAt := delivery.cancelledAt
    acceptedAttemptCount := some delivery.acceptedAttemptCount
    duplicateAcceptanceAt := delivery.duplicateAcceptanceAt }

/-- The row of a delivery is set, the others are left. -/
def setIfDelivery (delivery : StoredOutboundDelivery) (row : DeliveryRow) : DeliveryRow :=
  if row.id = delivery.id then setDelivery delivery row else row

def updateDeliveryRow (delivery : StoredOutboundDelivery) (t : StorageTables) : StorageTables :=
  updateDeliveries (setIfDelivery delivery)
    (fun row => by rw [setIfDelivery]; split <;> rfl)
    (fun row => by rw [setIfDelivery]; split <;> rfl) t

/-- The columns that `updateAttempt` sets. -/
def setAttempt (attempt : OutboundDeliveryAttempt) (row : AttemptRow) : AttemptRow :=
  { row with
    status := attempt.status.text
    finishedAt := attempt.finishedAt
    sesMessageId := attempt.sesMessageId
    httpStatus := attempt.httpStatus
    errorCode := attempt.errorCode
    errorMessage := attempt.errorMessage
    providerState := attempt.providerState.text
    providerEventAt := attempt.providerEventAt
    providerEventId := attempt.providerEventId }

def updateAttemptRow (attempt : OutboundDeliveryAttempt) (t : StorageTables) : StorageTables :=
  { t with
    attempts :=
      t.attempts.map fun row => if row.id = attempt.id then setAttempt attempt row else row }

/-- `ORDER BY attempt_number DESC` -/
def latestFirst (a b : AttemptRow) : Bool := !a.attemptNumber.lt b.attemptNumber

def listAttemptsByDelivery (deliveryId : String) (t : StorageTables) :
    List OutboundDeliveryAttempt :=
  ((t.attempts.filter fun row => row.deliveryId = deliveryId).mergeSort latestFirst).map
    attemptRowToStored

/-- `TRIM` strips blanks only. -/
def sqlTrim (s : String) : String :=
  String.ofList (((s.toList.dropWhile (· = ' ')).reverse.dropWhile (· = ' ')).reverse)

/-- The rows that `listExpiredSending` selects. -/
def expiredSending (host : StorageHost) (now : String) (row : DeliveryRow) : Sql.Truth :=
  Sql.allOf
    [Sql.eq (some row.status) (some "sending"),
      Sql.anyOf
        [Sql.le row.leaseExpiresAt (some now),
          Sql.isNull row.leaseExpiresAt,
          Sql.isNull row.leaseToken,
          Sql.eq (row.leaseToken.map sqlTrim) (some ""),
          Sql.isNull (row.leaseExpiresAt.bind host.seconds),
          Sql.ne (row.leaseExpiresAt.bind host.isoText) row.leaseExpiresAt]]

/-- `listExpiredSending`. It would mark the rows whose hydration throws, but the hydration catches
what it throws, so that there are none. -/
def listExpiredSending (host : StorageHost) (now : String) (t : StorageTables) :
    List StoredOutboundDelivery :=
  (t.deliveries.filter fun row => Sql.holds (expiredSending host now row)).map
    (hydrateExpiredDelivery host t)

/-- The store, as far as the recovery reaches it; the other operations are those of `rest`. -/
def storageTransaction (host : StorageHost) (rest : OutboundDeliveryTransaction StorageTables) :
    OutboundDeliveryTransaction StorageTables :=
  { rest with
    listExpiredSending := some fun now t => .ok (listExpiredSending host now t, t)
    updateDelivery := fun delivery t => .ok (updateDeliveryRow delivery t)
    listAttemptsByDelivery := listAttemptsByDelivery
    updateAttempt := fun attempt t => .ok (updateAttemptRow attempt t) }

/-! ### A small store -/

/-- A host whose texts are lower case, and whose dates are those in the format. -/
def plainHost : StorageHost where
  toLowerCase := id
  isoText x := if isCanonicalUtcTimestamp x then some x else none
  seconds x :=
    if isCanonicalUtcTimestamp x then some (toString ((isoTimeValue x).getD 0 / 1000)) else none
  seconds_null x := by split <;> simp

/-- A delivery that waits for its time. -/
def plainDelivery : DeliveryRow where
  id := "delivery-1"
  emailId := "email-1"
  idempotencyKey := "key-1"
  kind := "compose"
  source := "ui"
  actorKind := "user"
  status := "queued"
  availableAt := "2026-07-11T10:00:10.000Z"
  undoUntil := "2026-07-11T10:00:10.000Z"
  attemptCount := some 0
  maxAttempts := some 4
  preflightDeferralCount := some 0
  cancellationRecoveryAttemptCount := some 0
  createdAt := "2026-07-11T10:00:00.000Z"
  updatedAt := "2026-07-11T10:00:00.000Z"
  acceptedAttemptCount := some 0

/-- The tables of one delivery, with its message in the outbox. -/
def oneDelivery (row : DeliveryRow) : StorageTables where
  deliveries := [row]
  attempts := []
  emails := [⟨row.emailId, "outbox", some "team@example.com", none, some 1⟩]
  acceptanceRecovery := []
  deliveryKey := List.nodup_singleton row.id
  emailExists := by
    intro row' hrow'
    rw [List.mem_singleton.mp hrow']
    exact ⟨_, List.mem_singleton_self _, rfl⟩

end MailPortal.Outbox
