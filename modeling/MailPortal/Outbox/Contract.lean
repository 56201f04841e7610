import MailPortal.Platform.JavaScript

/-!
# The Outbound Delivery Contract

The vocabulary of `outbound-delivery-contract.ts`: the statuses of a delivery, the
transition table, the immutable snapshot a delivery carries and the command that enqueues
it, together with the pure rules the service applies to them.

`OutboxError` collects every error the outbox service can throw, under the names of the
source's error classes.
-/

namespace MailPortal.Outbox

/-! ### Statuses and transitions -/

/-- The states of a delivery. -/
inductive OutboundDeliveryStatus
  | queued
  | sending
  | retrying
  | sent
  | bounced
  | failed
  | unknown
  | cancelled
  deriving DecidableEq

variable {status next : OutboundDeliveryStatus}

/-- What can happen to a delivery. -/
inductive DeliveryTransition
  | startSending
  | providerAccepted
  | providerBounced
  | scheduleRetry
  | retryReady
  | exhaustRetries
  | definitiveFailure
  | ambiguousOutcome
  | leaseExpired
  | cancel
  | retryFailed
  | forceRetryUnknown
  deriving DecidableEq

/-- The stored spelling of a status. -/
def OutboundDeliveryStatus.text : OutboundDeliveryStatus → String
  | .queued => "queued"
  | .sending => "sending"
  | .retrying => "retrying"
  | .sent => "sent"
  | .bounced => "bounced"
  | .failed => "failed"
  | .unknown => "unknown"
  | .cancelled => "cancelled"

/-- The table `TRANSITIONS`: where each transition leads from each status, if anywhere. -/
def transitions : OutboundDeliveryStatus → DeliveryTransition → Option OutboundDeliveryStatus
  | .queued, .startSending => some .sending
  | .queued, .definitiveFailure => some .failed
  | .queued, .cancel => some .cancelled
  | .sending, .providerAccepted => some .sent
  | .sending, .scheduleRetry => some .retrying
  | .sending, .exhaustRetries => some .failed
  | .sending, .definitiveFailure => some .failed
  | .sending, .ambiguousOutcome => some .unknown
  -- a worker that disappears mid-request may have delivered: never back to the queue
  | .sending, .leaseExpired => some .unknown
  | .retrying, .retryReady => some .queued
  | .retrying, .definitiveFailure => some .failed
  | .retrying, .cancel => some .cancelled
  | .failed, .retryFailed => some .queued
  -- only after an explicit acknowledgement of the duplicate risk
  | .unknown, .forceRetryUnknown => some .queued
  | .unknown, .providerBounced => some .bounced
  | .sent, .providerBounced => some .bounced
  | _, _ => none

/-! ### The snapshot and the command -/

inductive OutboundDeliveryKind
  | compose
  | reply
  | forward
  | bulk
  deriving DecidableEq

inductive OutboundDeliverySource
  | ui
  | api
  | mcp
  | agent
  | rule
  | bulk
  deriving DecidableEq

inductive OutboundDeliveryActorKind
  | user
  | mcp
  | agent
  | rule
  | system
  deriving DecidableEq

structure OutboundDeliveryActor where
  kind : OutboundDeliveryActorKind
  id : Option String := none
  deriving DecidableEq

inductive AttachmentDisposition
  | attachment
  | inline
  deriving DecidableEq

/-- Which bytes an attachment has. -/
structure OutboundAttachmentByteIdentity where
  id : String
  byteLength : JsNumber
  sha256 : String
  filename : String
  mimetype : String
  disposition : AttachmentDisposition
  contentId : Option String := none
  deriving DecidableEq

/-- The immutable message a delivery was accepted with. `draftId` and `draftVersion` are
present together, when the send came from a saved draft. -/
structure OutboundMessageSnapshot where
  mailboxId : String
  draftId : Option String := none
  draftVersion : Option JsNumber := none
  kind : OutboundDeliveryKind
  «to» : List String
  cc : List String
  bcc : List String
  «from» : String
  subject : String
  html : Option String := none
  text : Option String := none
  inReplyTo : Option String := none
  references : Option (List String) := none
  threadId : String
  attachmentIds : List String
  attachmentByteIdentities : Option (List OutboundAttachmentByteIdentity) := none
  sourceDraftAttachmentIds : Option (List String) := none
  deriving DecidableEq

/-- A mail to be sent. -/
structure EnqueueOutboundCommand where
  idempotencyKey : String
  commandFingerprint : String
  source : OutboundDeliverySource
  actor : OutboundDeliveryActor
  snapshot : OutboundMessageSnapshot
  requestedAt : String
  undoUntil : String
  scheduledFor : Option String := none

/-! ### Errors -/

inductive SourceDraftConflictReason
  | notFound
  | notDraft
  | versionConflict
  deriving DecidableEq

inductive OutboundReplayConflictReason
  | commandMismatch
  | legacyIdempotencyUnverifiable
  deriving DecidableEq

/-- Every error the outbox service throws, one constructor an error class. `plain` is a
bare `Error`, `range` the `RangeError` of an invalid date, and `callback` what a callback
of the caller threw. -/
inductive OutboxError
  | invalidDeliveryTransition (status : OutboundDeliveryStatus) (transition : DeliveryTransition)
  | deliveryLease (deliveryId : String)
  | outboundDeliveryNotFound (deliveryId : String)
  | outboundDeliveryIntegrity (deliveryId : String)
  | outboundDeliveryNotRetryable (deliveryId : String)
  | duplicateRiskAcknowledgementRequired (deliveryId : String)
  | outboundIdempotencyConflict (reason : OutboundReplayConflictReason)
  | sourceDraftConflict (draftId : String) (reason : SourceDraftConflictReason)
      (currentVersion : Option JsNumber)
  | plain (message : String)
  | range
  | callback (message : String)

/-! ### Rules -/

/-- `transitionDelivery`: follow the table, or throw. -/
def transitionDelivery (status : OutboundDeliveryStatus) (transition : DeliveryTransition) :
    Except OutboxError OutboundDeliveryStatus :=
  match transitions status transition with
  | some next => .ok next
  | none => .error (.invalidDeliveryTransition status transition)

/-- `computeAvailableAt`: dispatch waits for both the undo delay and Send Later. A
comparison with an unparseable date is false, so the undo deadline wins there. -/
def computeAvailableAt (host : HostRuntime) (undoUntil : String) (scheduledFor : Option String) :
    String :=
  match scheduledFor with
  | none => undoUntil
  | some scheduled =>
      if scheduled = "" then undoUntil
      else match host.dateParse scheduled, host.dateParse undoUntil with
        | some s, some u => if u < s then scheduled else undoUntil
        | _, _ => undoUntil

/-- `canCancelDelivery`: cancellable until the worker claims it. -/
def canCancelDelivery (status : OutboundDeliveryStatus) : Bool :=
  status = .queued || status = .retrying

/-- `NON_RETRYABLE_LOCAL_FAILURE_CODES`. -/
def nonRetryableLocalFailureCodes : List String :=
  ["attachment_integrity_unverifiable", "attachment_metadata_mismatch",
    "attachment_size_mismatch", "attachment_content_mismatch", "attachment_missing",
    "snapshot_missing", "outbound_snapshot_invalid", "outbound_dispatch_metadata_invalid"]

/-- `canRetryFailedDelivery`. -/
def canRetryFailedDelivery (errorCode : Option String) : Bool :=
  match errorCode with
  | none => true
  | some code => code = "" || code ∉ nonRetryableLocalFailureCodes

/-- A transition that does not throw is one of the table. -/
theorem transitionDelivery_ok {t : DeliveryTransition}
    (h : transitionDelivery status t = .ok next) :
    transitions status t = some next := by
  unfold transitionDelivery at h
  split at h
  · next heq => rw [heq, Except.ok.inj h]
  · cases h

/-- Only a failed delivery is retried as such. -/
theorem transitionDelivery_retryFailed (h : transitionDelivery status .retryFailed = .ok next) :
    status = .failed ∧ .queued = next := by
  have htable := transitionDelivery_ok h
  cases status <;> simp_all [transitions]

/-- Only an unknown delivery is retried by force. -/
theorem transitionDelivery_forceRetryUnknown
    (h : transitionDelivery status .forceRetryUnknown = .ok next) :
    status = .unknown ∧ .queued = next := by
  have htable := transitionDelivery_ok h
  cases status <;> simp_all [transitions]

/-- A bounce is reported of a delivery that was sent, or may have been. -/
theorem transitionDelivery_providerBounced
    (h : transitionDelivery status .providerBounced = .ok next) :
    (status = .sent ∨ status = .unknown) ∧ .bounced = next := by
  have htable := transitionDelivery_ok h
  cases status <;> simp_all [transitions]

end MailPortal.Outbox
