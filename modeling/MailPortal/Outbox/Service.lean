import MailPortal.Outbox.Records

/-!
# The Truthful Outbox Service

The methods of `TruthfulOutboxService`, one definition each. A method takes the state of
the store and either returns its result with the new state or throws; the adapter runs
each method in one transaction, so a method that throws leaves the store as it was.

What `createId` returns is an argument of the two methods that call it; neither calls it
twice with one prefix.
-/

namespace MailPortal.Outbox

open Failure

variable {σ : Type}

namespace TruthfulOutboxService

/-- `MAX_PREFLIGHT_INTEGRITY_FAILURES_PER_CLAIM`. -/
def maxPreflightIntegrityFailuresPerClaim : ℕ := 25

/-! ### Enqueue and cancel -/

/-- The result of a replay of a delivery that already exists. -/
def replayExisting (tx : OutboundDeliveryTransaction σ) (existing : StoredOutboundDelivery)
    (command : EnqueueOutboundCommand) (s : σ) : Except OutboxError EnqueuedDelivery := do
  assertReplayFingerprint existing command
  let snapshot ← orThrow (tx.getSnapshot existing.emailId s)
    (.plain ("Missing outbox snapshot for " ++ existing.id))
  pure ⟨existing, snapshot, true, outboundEnqueueOutcome existing.status true⟩

/-- The delivery already accepted for a source draft, by the indexed seam or by a search
of the list. -/
def findSameDraft (tx : OutboundDeliveryTransaction σ) (sourceDraft : Option (String × JsNumber))
    (s : σ) : Option StoredOutboundDelivery :=
  match sourceDraft with
  | none => none
  | some (draftId, draftVersion) =>
      match tx.findDeliveryBySourceDraft with
      | some find => find draftId draftVersion s
      | none => (tx.listDeliveries s).find? fun d =>
          d.draftId = some draftId && d.draftVersion = some draftVersion

/-- Throw unless the source draft still has the version the command names. -/
def assertSourceDraft (tx : OutboundDeliveryTransaction σ)
    (sourceDraft : Option (String × JsNumber)) (s : σ) : Except OutboxError Unit :=
  match sourceDraft with
  | none => pure ()
  | some (draftId, draftVersion) =>
      match tx.assertSourceDraftVersion draftId draftVersion s with
      | .valid => pure ()
      | .notFound => throw (.sourceDraftConflict draftId .notFound none)
      | .notDraft => throw (.sourceDraftConflict draftId .notDraft none)
      | .versionConflict v => throw (.sourceDraftConflict draftId .versionConflict (some v))

/-- The delivery a command is accepted as. -/
def newDelivery (service : TruthfulOutboxService) (deliveryId emailId : String)
    (sourceDraft : Option (String × JsNumber)) (command : EnqueueOutboundCommand) :
    StoredOutboundDelivery where
  id := deliveryId
  emailId := emailId
  draftId := sourceDraft.map (·.1)
  draftVersion := sourceDraft.map (·.2)
  mailboxId := command.snapshot.mailboxId
  kind := command.snapshot.kind
  status := .queued
  idempotencyKey := command.idempotencyKey
  commandFingerprint := some command.commandFingerprint
  source := command.source
  actor := command.actor
  createdAt := command.requestedAt
  updatedAt := command.requestedAt
  availableAt := computeAvailableAt service.host command.undoUntil command.scheduledFor
  undoUntil := command.undoUntil
  scheduledFor := command.scheduledFor
  attemptCount := 0
  maxAttempts := service.defaultMaxAttempts
  preflightDeferralCount := 0
  cancellationRecoveryAttemptCount := 0
  acceptedAttemptCount := 0

/-- `enqueue`: accept a command once. A command whose idempotency key or source draft is
already bound returns that delivery, if its fingerprint is the same. -/
def enqueue (service : TruthfulOutboxService) (tx : OutboundDeliveryTransaction σ)
    (createId : IdPrefix → String) (command : EnqueueOutboundCommand)
    (onCommitted : EnqueuedDelivery → Except OutboxError Unit) (s : σ) :
    Except OutboxError (EnqueuedDelivery × σ) := do
  assertOutboundCommandFingerprint command.commandFingerprint
  match tx.findDeliveryByIdempotencyKey command.idempotencyKey s with
  | some existing =>
      let result ← replayExisting tx existing command s
      onCommitted result
      pure (result, s)
  | none =>
      let sourceDraft ← validateSourceDraftReference command.snapshot
      match findSameDraft tx sourceDraft s with
      | some sameDraft =>
          let result ← replayExisting tx sameDraft command s
          onCommitted result
          pure (result, s)
      | none =>
          assertSourceDraft tx sourceDraft s
          let delivery := newDelivery service (createId .delivery) (createId .email) sourceDraft
            command
          let s ← tx.insertSnapshot delivery.emailId command.snapshot s
          let s ← tx.insertDelivery delivery s
          let result : EnqueuedDelivery := ⟨delivery, command.snapshot, false, .enqueued⟩
          onCommitted result
          pure (result, s)

/-- The delivery with the outcome its retry started from put back. -/
def restoreRetryOrigin (delivery : StoredOutboundDelivery) (origin : RetryOriginStatus)
    (actor : OutboundDeliveryActor) (atTime : String) : StoredOutboundDelivery :=
  { delivery with
    actor := actor
    status := origin.status
    retryOriginStatus := none
    dispatchPhase := none
    activeAttemptId := none
    leaseToken := none
    leaseExpiresAt := none
    nextAttemptAt := none
    failedAt := if origin = .failed then some (delivery.failedAt.getD atTime) else none
    unknownAt := if origin = .unknown then some (delivery.unknownAt.getD atTime) else none
    cancelledAt := none
    lastErrorCode := some ("outbound_retry_cancelled_restored_" ++ origin.text)
    lastErrorMessage := some (match origin with
      | .unknown => "The retry was cancelled. The prior provider outcome remains unknown."
      | .failed => "The retry was cancelled. The prior failed outcome remains authoritative.")
    updatedAt := atTime }

/-- `cancel`: a delivery not yet claimed is cancelled; a retry goes back to the outcome it
started from. -/
def cancel (tx : OutboundDeliveryTransaction σ) (deliveryId : String)
    (actor : OutboundDeliveryActor) (atTime : String)
    (onCommitted : StoredOutboundDelivery → CancelOutcome → Except OutboxError Unit) (s : σ) :
    Except OutboxError (DeliveryMutationResult × σ) := do
  let delivery ← orThrow (tx.getDelivery deliveryId s) (.outboundDeliveryNotFound deliveryId)
  assertDeliveryStorageIntegrity delivery
  require (canCancelDelivery delivery.status)
    (.invalidDeliveryTransition delivery.status .cancel)
  match delivery.retryOriginStatus with
  | some origin =>
      let restored := restoreRetryOrigin delivery origin actor atTime
      let s ← tx.updateDelivery restored s
      onCommitted restored .retryRestored
      pure (⟨restored, actor, sourceDraftAction restored .retain, true⟩, s)
  | none =>
      let status ← transitionDelivery delivery.status .cancel
      let cancelled := { delivery with
        actor := actor
        status := status
        nextAttemptAt := some atTime
        cancellationRecoveryAttemptCount := 0
        cancelledAt := some atTime
        updatedAt := atTime }
      let s ← tx.updateDelivery cancelled s
      onCommitted cancelled .deliveryCancelled
      pure (⟨cancelled, actor, sourceDraftAction cancelled .retain, false⟩, s)

/-! ### Claiming -/

/-- The filter of the claim: queued and available, or retrying and due. -/
def isDispatchable (now : String) (candidate : StoredOutboundDelivery) : Bool :=
  (candidate.status = .queued && jsLe candidate.availableAt now) ||
    (candidate.status = .retrying &&
      match candidate.nextAttemptAt with
      | some t => jsLe t now
      | none => false)

/-- The order of the claim: by due time, then by creation time. -/
def dispatchOrder (host : HostRuntime) (a b : StoredOutboundDelivery) : Ordering :=
  (host.localeCompare (a.nextAttemptAt.getD a.availableAt)
    (b.nextAttemptAt.getD b.availableAt)).then (host.localeCompare a.createdAt b.createdAt)

/-- The next delivery to claim, by the indexed seams where the store has them. -/
def nextDispatchable (service : TruthfulOutboxService) (tx : OutboundDeliveryTransaction σ)
    (now : String) (s : σ) : Except OutboxError (Option DispatchableDeliveryCandidate) := do
  let indexedCandidate ← (match tx.findNextDispatchableCandidate with
    | some find => find now s
    | none => pure none)
  match indexedCandidate with
  | some candidate => pure (some candidate)
  | none =>
      let candidates ← (match tx.findNextDispatchable with
        | some find => do
            let candidate ← find now s
            pure candidate.toList
        | none => pure (tx.listDeliveries s))
      let delivery := sortFirst (dispatchOrder service.host)
        (candidates.filter (isDispatchable now))
      pure (delivery.map .ready)

/-- A delivery whose snapshot is gone cannot be sent; an earlier unknown outcome stays
unknown. -/
def failMissingSnapshot (delivery : StoredOutboundDelivery) (now : String) :
    StoredOutboundDelivery :=
  let fromUnknown := delivery.retryOriginStatus = some .unknown
  { delivery with
    status := if fromUnknown then .unknown else .failed
    retryOriginStatus := none
    dispatchPhase := none
    activeAttemptId := none
    nextAttemptAt := none
    leaseToken := none
    leaseExpiresAt := none
    failedAt := if fromUnknown then none else some now
    unknownAt := if fromUnknown then some (delivery.unknownAt.getD now) else none
    lastErrorCode := some (if fromUnknown then "outbound_retry_failed_original_unknown"
      else "outbound_snapshot_invalid")
    lastErrorMessage := some (if fromUnknown then
        "The retry could not run, but an earlier provider outcome remains unknown."
      else "The immutable outbound snapshot is unavailable or invalid.")
    updatedAt := now }

/-- Take the preflight lease of a due delivery. -/
def claimDelivery (service : TruthfulOutboxService) (tx : OutboundDeliveryTransaction σ)
    (createId : IdPrefix → String) (now : String) (leaseDurationMs : JsNumber)
    (delivery : StoredOutboundDelivery) (snapshot : OutboundMessageSnapshot) (s : σ) :
    Except OutboxError (ClaimedPreflight × σ) := do
  let leaseExpiresAt ← orThrow (isoAfter (service.host.dateParse now) leaseDurationMs) .range
  let readyStatus ← (if delivery.status = .retrying then
      transitionDelivery delivery.status .retryReady
    else pure delivery.status)
  let status ← transitionDelivery readyStatus .startSending
  let claimed := { delivery with
    status := status
    dispatchPhase := some .preflight
    activeAttemptId := none
    nextAttemptAt := none
    leaseToken := some (createId .lease)
    leaseExpiresAt := some leaseExpiresAt
    updatedAt := now }
  let s ← tx.updateDelivery claimed s
  pure (⟨claimed, snapshot⟩, s)

/-- The loop of `claimNextForPreflight`: at most `inspections` due rows are looked at. -/
def claimLoop (service : TruthfulOutboxService) (tx : OutboundDeliveryTransaction σ)
    (createId : IdPrefix → String) (now : String) (leaseDurationMs : JsNumber) :
    ℕ → σ → Except OutboxError (Option ClaimedPreflight × σ)
  | 0, s => pure (none, s)
  | inspections + 1, s => do
      let candidate ← nextDispatchable service tx now s
      match candidate with
      | none => pure (none, s)
      | some (.integrityFailure failure) =>
          let repair ← orThrow tx.failDispatchableIntegrity
            (.plain "Outbox storage cannot repair dispatch integrity")
          let s ← repair failure now s
          claimLoop service tx createId now leaseDurationMs inspections s
      | some (.ready delivery) =>
          match tx.getSnapshot delivery.emailId s with
          | none =>
              let s ← tx.updateDelivery (failMissingSnapshot delivery now) s
              claimLoop service tx createId now leaseDurationMs inspections s
          | some snapshot => do
              let (claimed, s) ← claimDelivery service tx createId now leaseDurationMs delivery
                snapshot s
              pure (some claimed, s)

/-- `claimNextForPreflight`. -/
def claimNextForPreflight (service : TruthfulOutboxService) (tx : OutboundDeliveryTransaction σ)
    (createId : IdPrefix → String) (now : String) (leaseDurationMs : JsNumber) (s : σ) :
    Except OutboxError (Option ClaimedPreflight × σ) :=
  claimLoop service tx createId now leaseDurationMs maxPreflightIntegrityFailuresPerClaim s

/-! ### Leases -/

/-- `#requireLease`: the delivery and the one attempt that a provider lease token owns. -/
def requireLease (tx : OutboundDeliveryTransaction σ) (deliveryId leaseToken : String) (s : σ) :
    Except OutboxError (StoredOutboundDelivery × OutboundDeliveryAttempt) := do
  let delivery ← orThrow (tx.getDelivery deliveryId s) (.deliveryLease deliveryId)
  require (delivery.status = .sending && delivery.leaseToken = some leaseToken &&
    delivery.dispatchPhase = some .provider && delivery.activeAttemptId.isSome)
    (.deliveryLease deliveryId)
  match (tx.listAttemptsByDelivery deliveryId s).filter fun candidate =>
      candidate.storageIntegrityCode.isNone && candidate.leaseToken = leaseToken &&
        candidate.status = .sending with
  | [attempt] =>
      require (delivery.activeAttemptId = some attempt.id) (.deliveryLease deliveryId)
      pure (delivery, attempt)
  | _ => throw (.deliveryLease deliveryId)

/-- `#requirePreflightLease`. -/
def requirePreflightLease (tx : OutboundDeliveryTransaction σ) (deliveryId leaseToken : String)
    (s : σ) : Except OutboxError StoredOutboundDelivery := do
  let delivery ← orThrow (tx.getDelivery deliveryId s) (.deliveryLease deliveryId)
  require (delivery.status = .sending && delivery.dispatchPhase = some .preflight &&
    delivery.leaseToken = some leaseToken && delivery.activeAttemptId.isNone)
    (.deliveryLease deliveryId)
  pure delivery

/-- `hasUnsafeProviderAttempt`: an attempt that may already have reached the provider. -/
def hasUnsafeProviderAttempt (tx : OutboundDeliveryTransaction σ) (deliveryId leaseToken : String)
    (s : σ) : Bool :=
  (tx.listAttemptsByDelivery deliveryId s).any fun attempt =>
    attempt.storageIntegrityCode.isSome || attempt.leaseToken = leaseToken ||
      attempt.status = .sending || attempt.status = .accepted

/-! ### Preflight -/

/-- `deferPreflight`. -/
def deferPreflight (tx : OutboundDeliveryTransaction σ) (deliveryId leaseToken : String)
    (details : RetryableFailureDetails) (s : σ) :
    Except OutboxError (PreflightMutationResult × σ) := do
  let delivery ← requirePreflightLease tx deliveryId leaseToken s
  require (!hasUnsafeProviderAttempt tx deliveryId leaseToken s) (.deliveryLease deliveryId)
  let status ← transitionDelivery delivery.status .scheduleRetry
  let deferred := { delivery with
    status := status
    dispatchPhase := none
    activeAttemptId := none
    leaseToken := none
    leaseExpiresAt := none
    nextAttemptAt := some details.retryAt
    preflightDeferralCount := delivery.preflightDeferralCount + 1
    lastErrorCode := some details.code
    lastErrorMessage := details.message
    updatedAt := details.atTime }
  let s ← tx.updateDelivery deferred s
  pure (⟨deferred, sourceDraftAction deferred .retain⟩, s)

/-- The delivery after a failure that no retry follows: an earlier unknown outcome stays
unknown. `masked` is the message shown in that case. -/
def settleFailed (delivery : StoredOutboundDelivery) (details : DefinitiveFailureDetails)
    (masked : String) : StoredOutboundDelivery :=
  let fromUnknown := delivery.retryOriginStatus = some .unknown
  { delivery with
    status := if fromUnknown then .unknown else .failed
    retryOriginStatus := none
    dispatchPhase := none
    activeAttemptId := none
    leaseToken := none
    leaseExpiresAt := none
    failedAt := if fromUnknown then none else some details.atTime
    unknownAt := if fromUnknown then some (delivery.unknownAt.getD details.atTime) else none
    lastErrorCode := if fromUnknown then some "outbound_retry_failed_original_unknown"
      else some details.code
    lastErrorMessage := if fromUnknown then some masked else details.message
    updatedAt := details.atTime }

/-- `failPreflight`. -/
def failPreflight (tx : OutboundDeliveryTransaction σ) (deliveryId leaseToken : String)
    (details : DefinitiveFailureDetails) (s : σ) :
    Except OutboxError (PreflightMutationResult × σ) := do
  let delivery ← requirePreflightLease tx deliveryId leaseToken s
  require (!hasUnsafeProviderAttempt tx deliveryId leaseToken s) (.deliveryLease deliveryId)
  let failed := settleFailed delivery details
    "The retry failed before provider acceptance, but an earlier provider outcome remains unknown."
  let s ← tx.updateDelivery failed s
  pure (⟨failed, sourceDraftAction failed .retain⟩, s)

/-- `beginProviderAttempt`: turn an unexpired preflight lease into a provider lease and
record the attempt. -/
def beginProviderAttempt (service : TruthfulOutboxService) (tx : OutboundDeliveryTransaction σ)
    (deliveryId leaseToken attemptId atTime : String) (providerLeaseDurationMs : JsNumber)
    (s : σ) : Except OutboxError (ClaimedDelivery × σ) := do
  let delivery ← requirePreflightLease tx deliveryId leaseToken s
  require (!hasUnsafeProviderAttempt tx deliveryId leaseToken s) (.deliveryLease deliveryId)
  let startedAt := service.host.dateParse atTime
  let preflightLeaseExpiresAt := service.host.dateParse (delivery.leaseExpiresAt.getD "")
  let beforeExpiry := match startedAt, preflightLeaseExpiresAt with
    | some t, some e => decide (t < e)
    | _, _ => false
  let positiveDuration := match providerLeaseDurationMs with
    | some d => decide (0 < d)
    | none => false
  require (beforeExpiry && !isBlank attemptId && positiveDuration) (.deliveryLease deliveryId)
  let snapshot ← orThrow (tx.getSnapshot delivery.emailId s)
    (.plain ("Missing outbox snapshot for " ++ delivery.id))
  let attempt : OutboundDeliveryAttempt := {
    id := attemptId
    deliveryId := deliveryId
    attemptNumber := JsNumber.ofInt (delivery.attemptCount + 1)
    status := .sending
    leaseToken := leaseToken
    startedAt := atTime
    providerState := .none }
  let leaseExpiresAt ← orThrow (isoAfter startedAt providerLeaseDurationMs) .range
  let dispatching := { delivery with
    attemptCount := delivery.attemptCount + 1
    dispatchPhase := some .provider
    activeAttemptId := some attempt.id
    leaseExpiresAt := some leaseExpiresAt
    updatedAt := atTime }
  let s ← tx.updateDelivery dispatching s
  let s ← tx.insertAttempt attempt s
  pure (⟨dispatching, attempt, snapshot⟩, s)

/-! ### Finalizing an attempt -/

/-- `finalizeRetryableFailure`: the provider refused for now. -/
def finalizeRetryableFailure (tx : OutboundDeliveryTransaction σ) (deliveryId leaseToken : String)
    (details : RetryableFailureDetails) (s : σ) :
    Except OutboxError (FinalizedDeliveryAttempt × σ) := do
  let (delivery, attempt) ← requireLease tx deliveryId leaseToken s
  let exhausted := decide (delivery.maxAttempts ≤ delivery.attemptCount)
  let fromUnknown := decide (delivery.retryOriginStatus = some .unknown)
  let status ← (if exhausted && fromUnknown then pure .unknown
    else transitionDelivery delivery.status (if exhausted then .exhaustRetries else .scheduleRetry))
  let finalizedDelivery := { delivery with
    status := status
    retryOriginStatus := if exhausted then none else delivery.retryOriginStatus
    dispatchPhase := none
    activeAttemptId := none
    leaseToken := none
    leaseExpiresAt := none
    nextAttemptAt := if exhausted then none else some details.retryAt
    failedAt := if exhausted && !fromUnknown then some details.atTime else delivery.failedAt
    unknownAt := if exhausted && !fromUnknown then none else delivery.unknownAt
    lastErrorCode := if exhausted && fromUnknown then
        some "outbound_retry_failed_original_unknown"
      else some details.code
    lastErrorMessage := if exhausted && fromUnknown then
        some "The retry was rejected, but an earlier provider outcome remains unknown."
      else details.message
    updatedAt := details.atTime }
  let finalizedAttempt := { attempt with
    status := .rejectedRetryable
    finishedAt := some details.atTime
    httpStatus := details.httpStatus
    errorCode := some details.code
    errorMessage := details.message }
  let s ← tx.updateDelivery finalizedDelivery s
  let s ← tx.updateAttempt finalizedAttempt s
  pure (⟨finalizedDelivery, finalizedAttempt, sourceDraftAction finalizedDelivery .retain⟩, s)

/-- `finalizeDefinitiveFailure`: the provider refused for good. -/
def finalizeDefinitiveFailure (tx : OutboundDeliveryTransaction σ) (deliveryId leaseToken : String)
    (details : DefinitiveFailureDetails) (s : σ) :
    Except OutboxError (FinalizedDeliveryAttempt × σ) := do
  let (delivery, attempt) ← requireLease tx deliveryId leaseToken s
  let failedDelivery := settleFailed delivery details
    "The retry was rejected, but an earlier provider outcome remains unknown."
  let failedAttempt := { attempt with
    status := .rejectedPermanent
    finishedAt := some details.atTime
    httpStatus := details.httpStatus
    errorCode := some details.code
    errorMessage := details.message }
  let s ← tx.updateDelivery failedDelivery s
  let s ← tx.updateAttempt failedAttempt s
  pure (⟨failedDelivery, failedAttempt, sourceDraftAction failedDelivery .retain⟩, s)

/-- `finalizeUnknown`: the outcome is ambiguous. The details' `httpStatus` is not read. -/
def finalizeUnknown (tx : OutboundDeliveryTransaction σ) (deliveryId leaseToken : String)
    (details : DefinitiveFailureDetails) (s : σ) :
    Except OutboxError (FinalizedDeliveryAttempt × σ) := do
  let (delivery, attempt) ← requireLease tx deliveryId leaseToken s
  let status ← transitionDelivery delivery.status .ambiguousOutcome
  let unknownDelivery := { delivery with
    status := status
    retryOriginStatus := none
    dispatchPhase := none
    activeAttemptId := none
    leaseToken := none
    leaseExpiresAt := none
    unknownAt := some details.atTime
    failedAt := none
    lastErrorCode := some details.code
    lastErrorMessage := details.message
    updatedAt := details.atTime }
  let unknownAttempt := { attempt with
    status := .unknown
    finishedAt := some details.atTime
    errorCode := some details.code
    errorMessage := details.message }
  let s ← tx.updateDelivery unknownDelivery s
  let s ← tx.updateAttempt unknownAttempt s
  pure (⟨unknownDelivery, unknownAttempt, sourceDraftAction unknownDelivery .retain⟩, s)

/-- `finalizeAccepted`: the provider accepted the message. The message id is checked
before the lease. -/
def finalizeAccepted (tx : OutboundDeliveryTransaction σ)
    (deliveryId leaseToken sesMessageId atTime : String) (s : σ) :
    Except OutboxError (FinalizedDeliveryAttempt × σ) := do
  require (!isBlank sesMessageId) (.plain "SES acceptance requires a MessageId")
  let (delivery, attempt) ← requireLease tx deliveryId leaseToken s
  let status ← transitionDelivery delivery.status .providerAccepted
  let sentDelivery := { delivery with
    status := status
    retryOriginStatus := none
    dispatchPhase := none
    activeAttemptId := none
    leaseToken := none
    leaseExpiresAt := none
    sesMessageId := some sesMessageId
    sentAt := some atTime
    failedAt := none
    unknownAt := none
    lastErrorCode := none
    lastErrorMessage := none
    updatedAt := atTime }
  let acceptedAttempt := { attempt with
    status := .accepted
    finishedAt := some atTime
    sesMessageId := some sesMessageId }
  let s ← tx.updateDelivery sentDelivery s
  let s ← tx.updateAttempt acceptedAttempt s
  let s ← (match tx.recordAcceptedRecovery with
    | some record => record sentDelivery acceptedAttempt s
    | none => pure s)
  pure (⟨sentDelivery, acceptedAttempt, sourceDraftAction sentDelivery .consume⟩, s)

/-! ### Retries and bounces -/

/-- `retryFailed`. -/
def retryFailed (tx : OutboundDeliveryTransaction σ) (deliveryId : String)
    (actor : OutboundDeliveryActor) (atTime : String)
    (assertRetryAllowed : StoredOutboundDelivery → Except OutboxError Unit) (s : σ) :
    Except OutboxError (DeliveryMutationResult × σ) := do
  let delivery ← orThrow (tx.getDelivery deliveryId s) (.outboundDeliveryNotFound deliveryId)
  assertDeliveryStorageIntegrity delivery
  require (canRetryFailedDelivery delivery.lastErrorCode)
    (.outboundDeliveryNotRetryable deliveryId)
  let status ← transitionDelivery delivery.status .retryFailed
  let queued := { delivery with
    actor := actor
    status := status
    retryOriginStatus := some .failed
    availableAt := atTime
    nextAttemptAt := none
    lastErrorCode := none
    lastErrorMessage := none
    updatedAt := atTime }
  assertRetryAllowed delivery
  let s ← tx.updateDelivery queued s
  pure (⟨queued, actor, sourceDraftAction queued .retain, false⟩, s)

/-- `retryUnknown`: only with the duplicate risk acknowledged. -/
def retryUnknown (tx : OutboundDeliveryTransaction σ) (deliveryId : String)
    (actor : OutboundDeliveryActor) (acknowledgeDuplicateRisk : Bool) (atTime : String)
    (assertRetryAllowed : StoredOutboundDelivery → Except OutboxError Unit) (s : σ) :
    Except OutboxError (DeliveryMutationResult × σ) := do
  require acknowledgeDuplicateRisk (.duplicateRiskAcknowledgementRequired deliveryId)
  let delivery ← orThrow (tx.getDelivery deliveryId s) (.outboundDeliveryNotFound deliveryId)
  assertDeliveryStorageIntegrity delivery
  let status ← transitionDelivery delivery.status .forceRetryUnknown
  let queued := { delivery with
    actor := actor
    status := status
    retryOriginStatus := some .unknown
    availableAt := atTime
    lastErrorCode := none
    lastErrorMessage := none
    updatedAt := atTime }
  assertRetryAllowed delivery
  let s ← tx.updateDelivery queued s
  pure (⟨queued, actor, sourceDraftAction queued .retain, false⟩, s)

/-- `markBounced`. -/
def markBounced (tx : OutboundDeliveryTransaction σ) (deliveryId : String)
    (details : BounceDetails) (s : σ) : Except OutboxError (StoredOutboundDelivery × σ) := do
  let delivery ← orThrow (tx.getDelivery deliveryId s) (.outboundDeliveryNotFound deliveryId)
  assertDeliveryStorageIntegrity delivery
  let status ← transitionDelivery delivery.status .providerBounced
  let bounced := { delivery with
    status := status
    retryOriginStatus := none
    sesMessageId := details.sesMessageId.or delivery.sesMessageId
    failedAt := none
    unknownAt := none
    lastErrorCode := some details.code
    lastErrorMessage := details.message
    updatedAt := details.atTime }
  let s ← tx.updateDelivery bounced s
  pure (bounced, s)

/-! ### Lease recovery -/

/-- The rows the recovery acts on: sending, and either expired or flagged as malformed by
the store. -/
def needsRecovery (now : String) (delivery : StoredOutboundDelivery) : Bool :=
  delivery.status = .sending &&
    (delivery.recoveryIntegrityCode.isSome ||
      (truthy delivery.leaseToken && truthy delivery.leaseExpiresAt &&
        jsLe (delivery.leaseExpiresAt.getD "") now))

/-- The attempts of a delivery that may have reached the provider, in the order of the
store. -/
def recoverySuspects (delivery : StoredOutboundDelivery) (attempts : List OutboundDeliveryAttempt) :
    List OutboundDeliveryAttempt :=
  attempts.filter fun attempt =>
    attempt.storageIntegrityCode.isSome ||
      (truthy delivery.leaseToken && delivery.leaseToken = some attempt.leaseToken) ||
      attempt.status = .sending || attempt.status = .accepted

/-- Store a list of attempts, one after another. -/
def updateAttempts (tx : OutboundDeliveryTransaction σ) :
    List OutboundDeliveryAttempt → σ → Except OutboxError σ
  | [], s => pure s
  | attempt :: rest, s => do
      let s ← tx.updateAttempt attempt s
      updateAttempts tx rest s

/-- A preflight lease that expired with no attempt on record goes back to the retries. -/
def recoverPreflight (tx : OutboundDeliveryTransaction σ) (now : String)
    (delivery : StoredOutboundDelivery) (s : σ) :
    Except OutboxError (RecoveredDeliveryLease × σ) := do
  let status ← transitionDelivery delivery.status .scheduleRetry
  let retrying := { delivery with
    status := status
    dispatchPhase := none
    activeAttemptId := none
    leaseToken := none
    leaseExpiresAt := none
    nextAttemptAt := some now
    preflightDeferralCount := delivery.preflightDeferralCount + 1
    updatedAt := now
    lastErrorCode := some "preflight_lease_expired"
    lastErrorMessage := some "Local preflight lease expired before provider dispatch." }
  let s ← tx.updateDelivery retrying s
  pure (.preflight retrying, s)

/-- Anything else may have been delivered: the delivery and its suspect attempts become
unknown. -/
def recoverProvider (tx : OutboundDeliveryTransaction σ) (now : String)
    (delivery : StoredOutboundDelivery) (suspects : List OutboundDeliveryAttempt) (s : σ) :
    Except OutboxError (RecoveredDeliveryLease × σ) := do
  let recoveryCode := match delivery.recoveryIntegrityCode with
    | some code => code.text
    | none => if suspects.isEmpty then "provider_attempt_integrity_missing" else "lease_expired"
  let status ← transitionDelivery delivery.status .leaseExpired
  let unknownDelivery := { delivery with
    status := status
    retryOriginStatus := none
    dispatchPhase := none
    activeAttemptId := none
    leaseToken := none
    leaseExpiresAt := none
    unknownAt := some now
    failedAt := none
    updatedAt := now
    lastErrorCode := some recoveryCode
    lastErrorMessage := some (if delivery.recoveryIntegrityCode.isSome then
        "The provider result is ambiguous because dispatch metadata is invalid."
      else if !suspects.isEmpty then
        "The provider result is ambiguous because the send lease expired."
      else "The provider result is ambiguous because its attempt record is unavailable.") }
  let s ← tx.updateDelivery unknownDelivery s
  let unknownAttempts := (suspects.filter fun candidate => candidate.status ≠ .accepted).map
    fun candidate => { candidate with
      status := .unknown
      finishedAt := some now
      errorCode := some recoveryCode }
  let s ← updateAttempts tx unknownAttempts s
  pure (.provider unknownDelivery (unknownAttempts.head?.or suspects.head?), s)

/-- One turn of the recovery loop. -/
def recoverExpiredDelivery (tx : OutboundDeliveryTransaction σ) (now : String)
    (delivery : StoredOutboundDelivery) (s : σ) :
    Except OutboxError (Option RecoveredDeliveryLease × σ) :=
  if needsRecovery now delivery then do
    let suspects := recoverySuspects delivery (tx.listAttemptsByDelivery delivery.id s)
    let (recovered, s) ← (if delivery.dispatchPhase = some .preflight &&
        delivery.recoveryIntegrityCode.isNone && suspects.isEmpty then
        recoverPreflight tx now delivery s
      else recoverProvider tx now delivery suspects s)
    pure (some recovered, s)
  else pure (none, s)

/-- The loop of `recoverExpiredLeases` over its candidates. -/
def recoverLoop (tx : OutboundDeliveryTransaction σ) (now : String) :
    List StoredOutboundDelivery → σ → Except OutboxError (List RecoveredDeliveryLease × σ)
  | [], s => pure ([], s)
  | delivery :: rest, s => do
      let (recovered, s) ← recoverExpiredDelivery tx now delivery s
      let (others, s) ← recoverLoop tx now rest s
      pure (recovered.toList ++ others, s)

/-- `recoverExpiredLeases`. -/
def recoverExpiredLeases (tx : OutboundDeliveryTransaction σ) (now : String) (s : σ) :
    Except OutboxError (List RecoveredDeliveryLease × σ) := do
  let (candidates, s) ← (match tx.listExpiredSending with
    | some list => list now s
    | none => pure (tx.listDeliveries s, s))
  recoverLoop tx now candidates s

end TruthfulOutboxService

end MailPortal.Outbox
