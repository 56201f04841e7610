import MailPortal.Lib.Failure
import MailPortal.Outbox.Contract

/-!
# The Records of the Outbox

The records `outbound-delivery-service.ts` keeps and returns: the stored delivery, its
attempts, the transaction seam `OutboundDeliveryTransaction` the service reaches its store
through, and the small rules the methods share.

The seam is a record of operations over a state type `σ`, so that one text of the service
runs over every store; seams the source marks optional are optional here. The seams of
the read-only listings and of the reconciliation markers, which no modelled method calls,
are left out.
-/

namespace MailPortal.Outbox

open Failure

/-! ### Records -/

/-- The statuses that a retry may come from. -/
inductive RetryOriginStatus
  | failed
  | unknown
  deriving DecidableEq

/-- The status a retry came from. -/
def RetryOriginStatus.status : RetryOriginStatus → OutboundDeliveryStatus
  | .failed => .failed
  | .unknown => .unknown

/-- The stored spelling of a retry's origin. -/
def RetryOriginStatus.text (origin : RetryOriginStatus) : String := origin.status.text

/-- How far a dispatch has come. -/
inductive DispatchPhase
  | preflight
  | provider
  deriving DecidableEq

/-- Why a recovery cannot trust a row. -/
inductive RecoveryIntegrityCode
  | dispatchPhaseInvalid
  | sendingLeaseInvalid
  | deliveryRecordInvalid
  deriving DecidableEq

/-- The spelling of a recovery code. -/
def RecoveryIntegrityCode.text : RecoveryIntegrityCode → String
  | .dispatchPhaseInvalid => "outbound_dispatch_phase_invalid"
  | .sendingLeaseInvalid => "outbound_sending_lease_invalid"
  | .deliveryRecordInvalid => "outbound_delivery_record_invalid"

/-- A delivery whose row cannot be trusted. -/
inductive DeliveryStorageIntegrityCode
  | deliveryRecordInvalid
  deriving DecidableEq

/-- A delivery as it is stored. -/
structure StoredOutboundDelivery where
  id : String
  emailId : String
  draftId : Option String := none
  draftVersion : Option JsNumber := none
  mailboxId : String
  kind : OutboundDeliveryKind
  status : OutboundDeliveryStatus
  idempotencyKey : String
  commandFingerprint : Option String := none
  source : OutboundDeliverySource
  actor : OutboundDeliveryActor
  createdAt : String
  updatedAt : String
  availableAt : String
  undoUntil : String
  scheduledFor : Option String := none
  nextAttemptAt : Option String := none
  attemptCount : ℕ
  maxAttempts : ℤ
  preflightDeferralCount : ℕ
  cancellationRecoveryAttemptCount : ℕ
  retryOriginStatus : Option RetryOriginStatus := none
  dispatchPhase : Option DispatchPhase := none
  activeAttemptId : Option String := none
  acceptedAttemptCount : ℕ
  duplicateAcceptanceAt : Option String := none
  leaseToken : Option String := none
  leaseExpiresAt : Option String := none
  sesMessageId : Option String := none
  lastErrorCode : Option String := none
  lastErrorMessage : Option String := none
  sentAt : Option String := none
  failedAt : Option String := none
  unknownAt : Option String := none
  cancelledAt : Option String := none
  cancelRecoveryPending : Option Bool := none
  recoveryIntegrityCode : Option RecoveryIntegrityCode := none
  storageIntegrityCode : Option DeliveryStorageIntegrityCode := none
  deriving DecidableEq

/-- What has become of an attempt. -/
inductive OutboundDeliveryAttemptStatus
  | sending
  | accepted
  | rejectedRetryable
  | rejectedPermanent
  | unknown
  deriving DecidableEq

/-- What the provider reports of an accepted attempt. -/
inductive AcceptedAttemptProviderState
  | none
  | delivered
  | bounced
  | complained
  | bounceScopeUnknown
  deriving DecidableEq

/-- An attempt whose row cannot be trusted. -/
inductive AttemptStorageIntegrityCode
  | attemptRecordInvalid
  deriving DecidableEq

/-- One attempt to send a delivery. -/
structure OutboundDeliveryAttempt where
  id : String
  deliveryId : String
  attemptNumber : JsNumber
  status : OutboundDeliveryAttemptStatus
  leaseToken : String
  startedAt : String
  finishedAt : Option String := none
  sesMessageId : Option String := none
  httpStatus : Option JsNumber := none
  errorCode : Option String := none
  errorMessage : Option String := none
  providerState : AcceptedAttemptProviderState
  providerEventAt : Option String := none
  providerEventId : Option String := none
  storageIntegrityCode : Option AttemptStorageIntegrityCode := none
  deriving DecidableEq

/-- What `assertSourceDraftVersion` answers. -/
inductive SourceDraftAssertion
  | valid
  | notFound
  | notDraft
  | versionConflict (currentVersion : JsNumber)

/-- The outcome a broken dispatch record is repaired to. -/
inductive IntegrityOutcome
  | failed
  | unknown
  deriving DecidableEq

/-- A due row whose dispatch metadata cannot be trusted. `status` is the row's own status,
one of queued and retrying. -/
structure DispatchIntegrityFailure where
  deliveryId : String
  status : OutboundDeliveryStatus
  outcome : IntegrityOutcome

/-- What may be dispatched next. -/
inductive DispatchableDeliveryCandidate
  | ready (delivery : StoredOutboundDelivery)
  | integrityFailure (failure : DispatchIntegrityFailure)

/-! ### The transaction seam -/

/-- The persistence seam over a store in state `σ`. A read that may also repair what it
reads returns the new state. -/
structure OutboundDeliveryTransaction (σ : Type) where
  findDeliveryByIdempotencyKey : String → σ → Option StoredOutboundDelivery
  findDeliveryBySourceDraft : Option (String → JsNumber → σ → Option StoredOutboundDelivery)
  assertSourceDraftVersion : String → JsNumber → σ → SourceDraftAssertion
  getDelivery : String → σ → Option StoredOutboundDelivery
  listDeliveries : σ → List StoredOutboundDelivery
  findNextDispatchableCandidate :
    Option (String → σ → Except OutboxError (Option DispatchableDeliveryCandidate))
  findNextDispatchable : Option (String → σ → Except OutboxError (Option StoredOutboundDelivery))
  failDispatchableIntegrity : Option (DispatchIntegrityFailure → String → σ → Except OutboxError σ)
  listExpiredSending : Option (String → σ → Except OutboxError (List StoredOutboundDelivery × σ))
  insertDelivery : StoredOutboundDelivery → σ → Except OutboxError σ
  updateDelivery : StoredOutboundDelivery → σ → Except OutboxError σ
  insertSnapshot : String → OutboundMessageSnapshot → σ → Except OutboxError σ
  getSnapshot : String → σ → Option OutboundMessageSnapshot
  insertAttempt : OutboundDeliveryAttempt → σ → Except OutboxError σ
  listAttemptsByDelivery : String → σ → List OutboundDeliveryAttempt
  updateAttempt : OutboundDeliveryAttempt → σ → Except OutboxError σ
  recordAcceptedRecovery :
    Option (StoredOutboundDelivery → OutboundDeliveryAttempt → σ → Except OutboxError σ)

/-- The options of the service, with the host it runs on. -/
structure TruthfulOutboxService where
  host : HostRuntime
  defaultMaxAttempts : ℤ := 4

/-- The prefixes `createId` is called with. -/
inductive IdPrefix
  | delivery
  | email
  | attempt
  | lease
  deriving DecidableEq

/-! ### Results -/

/-- A command is new, or repeats one that is still going on or over. -/
inductive OutboundEnqueueOutcome
  | enqueued
  | activeReplay
  | terminalReplay
  deriving DecidableEq

/-- What an enqueuing returns. -/
structure EnqueuedDelivery where
  delivery : StoredOutboundDelivery
  snapshot : OutboundMessageSnapshot
  replayed : Bool
  outcome : OutboundEnqueueOutcome

/-- What happens to the draft of a delivery. -/
inductive SourceDraftAction
  | retain
  | consume
  | none
  deriving DecidableEq

/-- A cancellation ends the delivery, or only its retry. -/
inductive CancelOutcome
  | deliveryCancelled
  | retryRestored
  deriving DecidableEq

/-- What a retry or a cancellation returns. -/
structure DeliveryMutationResult where
  delivery : StoredOutboundDelivery
  actor : OutboundDeliveryActor
  sourceDraftAction : SourceDraftAction
  retryCancellationRestored : Bool := false

/-- What the end of a preflight returns. -/
structure PreflightMutationResult where
  delivery : StoredOutboundDelivery
  sourceDraftAction : SourceDraftAction

/-- What the end of an attempt returns. -/
structure FinalizedDeliveryAttempt where
  delivery : StoredOutboundDelivery
  attempt : OutboundDeliveryAttempt
  sourceDraftAction : SourceDraftAction

/-- What a claim returns. -/
structure ClaimedPreflight where
  delivery : StoredOutboundDelivery
  snapshot : OutboundMessageSnapshot

/-- What the begin of an attempt returns. -/
structure ClaimedDelivery where
  delivery : StoredOutboundDelivery
  attempt : OutboundDeliveryAttempt
  snapshot : OutboundMessageSnapshot

/-- A lease that has run out, by its phase. -/
inductive RecoveredDeliveryLease
  | preflight (delivery : StoredOutboundDelivery)
  | provider (delivery : StoredOutboundDelivery) (attempt : Option OutboundDeliveryAttempt)

/-- The delivery a recovery reports. -/
def RecoveredDeliveryLease.delivery : RecoveredDeliveryLease → StoredOutboundDelivery
  | .preflight d => d
  | .provider d _ => d

/-- A failure after which to try again. -/
structure RetryableFailureDetails where
  atTime : String
  retryAt : String
  code : String
  message : Option String := none
  httpStatus : Option JsNumber := none

/-- A failure that is final. -/
structure DefinitiveFailureDetails where
  atTime : String
  code : String
  message : Option String := none
  httpStatus : Option JsNumber := none

/-- What is known of a bounce. -/
structure BounceDetails where
  atTime : String
  code : String
  message : Option String := none
  sesMessageId : Option String := none

/-! ### Small rules of the service -/

/-- The outcome by the status of the delivery that is found. -/
def outboundEnqueueOutcome (status : OutboundDeliveryStatus) (replayed : Bool) :
    OutboundEnqueueOutcome :=
  if !replayed then .enqueued
  else if status = .queued || status = .sending || status = .retrying then .activeReplay
  else .terminalReplay

/-- Sixty-four lower-case hexadecimal digits. -/
def isSha256Hex (text : String) : Bool :=
  text.toList.length = 64 &&
    text.toList.all fun c => ('0' ≤ c && c ≤ '9') || ('a' ≤ c && c ≤ 'f')

/-- A fingerprint is a SHA-256 digest. -/
def assertOutboundCommandFingerprint (commandFingerprint : String) : Except OutboxError Unit :=
  require (isSha256Hex commandFingerprint) (.plain "Outbound command fingerprint is invalid")

/-- `assertReplayFingerprint`, through `classifyOutboundReplay`: a delivery without a
fingerprint cannot be verified, another fingerprint is another command. -/
def assertReplayFingerprint (delivery : StoredOutboundDelivery)
    (command : EnqueueOutboundCommand) : Except OutboxError Unit :=
  if !truthy delivery.commandFingerprint then
    throw (.outboundIdempotencyConflict .legacyIdempotencyUnverifiable)
  else if delivery.commandFingerprint ≠ some command.commandFingerprint then
    throw (.outboundIdempotencyConflict .commandMismatch)
  else pure ()

/-- The row of the delivery can be trusted. -/
def assertDeliveryStorageIntegrity (delivery : StoredOutboundDelivery) :
    Except OutboxError Unit :=
  require delivery.storageIntegrityCode.isNone (.outboundDeliveryIntegrity delivery.id)

/-- `validateSourceDraftReference`: the draft identity and version of a snapshot, present
together or not at all. -/
def validateSourceDraftReference (snapshot : OutboundMessageSnapshot) :
    Except OutboxError (Option (String × JsNumber)) :=
  match snapshot.draftId, snapshot.draftVersion with
  | none, none => pure none
  | some draftId, some draftVersion =>
      if isBlank draftId || !draftVersion.isInteger || draftVersion.lt (JsNumber.ofInt 1) then
        throw (.plain "Source draft reference is invalid")
      else pure (some (draftId, draftVersion))
  | _, _ => throw (.plain "Source draft ID and version must be provided together")

/-- Without a draft there is nothing to do. -/
def sourceDraftAction (delivery : StoredOutboundDelivery) (whenLinked : SourceDraftAction) :
    SourceDraftAction :=
  if delivery.draftId.isNone then .none else whenLinked

end MailPortal.Outbox
