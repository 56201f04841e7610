import MailPortal.Lib.Table
import MailPortal.Outbox.Records

/-!
# The Lifecycle of a Delivery

What the outbox is for, stated without its methods: a delivery waits, is leased for a
preflight check, becomes a provider attempt, and settles. `LifecycleStep` lists everything
that may happen to the tables of deliveries and attempts in one write; every method of the
service is a sequence of such steps (`MailPortal.Outbox.Refinement`).

Two properties of a delivery and its attempts are what the lifecycle is about:

* `Coherent`: the lease fields of a delivery agree with its status and with its attempts.
  In particular at most one attempt is in flight, and it is the one the lease names.
* `Budget`: the attempts that the provider may have accepted are at most one more than
  the acknowledged retries, and at most one is known to be accepted.
-/

namespace MailPortal.Outbox

variable {id : String} {a : OutboundDeliveryAttempt}

/-- The rows of the outbox: its deliveries and their attempts, in insertion order. -/
structure OutboxTables where
  deliveries : List StoredOutboundDelivery
  attempts : List OutboundDeliveryAttempt

namespace OutboxTables

/-- The attempts of one delivery. -/
def attemptsOf (t : OutboxTables) (deliveryId : String) : List OutboundDeliveryAttempt :=
  t.attempts.filter fun a => a.deliveryId = deliveryId

def insertDelivery (d : StoredOutboundDelivery) (t : OutboxTables) : OutboxTables :=
  { t with deliveries := t.deliveries ++ [d] }

def updateDelivery (d : StoredOutboundDelivery) (t : OutboxTables) : OutboxTables :=
  { t with deliveries := Table.update (·.id) d t.deliveries }

def insertAttempt (a : OutboundDeliveryAttempt) (t : OutboxTables) : OutboxTables :=
  { t with attempts := t.attempts ++ [a] }

def updateAttempt (a : OutboundDeliveryAttempt) (t : OutboxTables) : OutboxTables :=
  { t with attempts := Table.update (·.id) a t.attempts }

@[simp] theorem insertDelivery_attempts (d : StoredOutboundDelivery) (t : OutboxTables) :
    (t.insertDelivery d).attempts = t.attempts := rfl

@[simp] theorem insertDelivery_deliveries (d : StoredOutboundDelivery) (t : OutboxTables) :
    (t.insertDelivery d).deliveries = t.deliveries ++ [d] := rfl

@[simp] theorem updateDelivery_attempts (d : StoredOutboundDelivery) (t : OutboxTables) :
    (t.updateDelivery d).attempts = t.attempts := rfl

@[simp] theorem updateDelivery_deliveries (d : StoredOutboundDelivery) (t : OutboxTables) :
    (t.updateDelivery d).deliveries = Table.update (·.id) d t.deliveries := rfl

@[simp] theorem insertAttempt_deliveries (a : OutboundDeliveryAttempt) (t : OutboxTables) :
    (t.insertAttempt a).deliveries = t.deliveries := rfl

@[simp] theorem insertAttempt_attempts (a : OutboundDeliveryAttempt) (t : OutboxTables) :
    (t.insertAttempt a).attempts = t.attempts ++ [a] := rfl

@[simp] theorem updateAttempt_deliveries (a : OutboundDeliveryAttempt) (t : OutboxTables) :
    (t.updateAttempt a).deliveries = t.deliveries := rfl

@[simp] theorem updateAttempt_attempts (a : OutboundDeliveryAttempt) (t : OutboxTables) :
    (t.updateAttempt a).attempts = Table.update (·.id) a t.attempts := rfl

/-- Only the attempts decide what `attemptsOf` returns. -/
theorem attemptsOf_congr {t u : OutboxTables} (h : t.attempts = u.attempts) (id : String) :
    t.attemptsOf id = u.attemptsOf id := by
  rw [attemptsOf, attemptsOf, h]

theorem mem_attemptsOf {t : OutboxTables} :
    a ∈ t.attemptsOf id ↔ a ∈ t.attempts ∧ a.deliveryId = id := by
  rw [attemptsOf, List.mem_filter, decide_eq_true_iff]

/-- A new attempt is the last one of its delivery. -/
theorem attemptsOf_insertAttempt_self (a : OutboundDeliveryAttempt) (t : OutboxTables) :
    (t.insertAttempt a).attemptsOf a.deliveryId = t.attemptsOf a.deliveryId ++ [a] := by
  simp [attemptsOf, List.filter_append]

/-- A new attempt is invisible to the other deliveries. -/
theorem attemptsOf_insertAttempt_of_ne (h : a.deliveryId ≠ id) (t : OutboxTables) :
    (t.insertAttempt a).attemptsOf id = t.attemptsOf id := by
  simp [attemptsOf, List.filter_append, h]

/-- An attempt that stays with its delivery is replaced in place, within that delivery. -/
theorem attemptsOf_updateAttempt {a' : OutboundDeliveryAttempt} {t : OutboxTables}
    (hnd : (t.attempts.map (·.id)).Nodup) (ha : a ∈ t.attempts) (hid : a'.id = a.id)
    (hdelivery : a'.deliveryId = a.deliveryId) (id : String) :
    (t.updateAttempt a').attemptsOf id = Table.update (·.id) a' (t.attemptsOf id) := by
  refine Table.filter_update fun r hr hk => ?_
  obtain rfl : r = a := Table.eq_of_key_eq hnd hr ha (hk.trans hid)
  rw [hdelivery]

end OutboxTables

/-! ### Coherent leases -/

/-- No lease field is set. -/
structure Unleased (d : StoredOutboundDelivery) : Prop where
  leaseToken : d.leaseToken = none
  leaseExpiresAt : d.leaseExpiresAt = none
  dispatchPhase : d.dispatchPhase = none
  activeAttemptId : d.activeAttemptId = none

/-- A preflight lease: nothing of this lease is on record at the provider. -/
structure PreflightLease (d : StoredOutboundDelivery) (token : String)
    (atts : List OutboundDeliveryAttempt) : Prop where
  dispatchPhase : d.dispatchPhase = some .preflight
  activeAttemptId : d.activeAttemptId = none
  attempts : ∀ a ∈ atts, a.status ≠ .sending ∧ a.leaseToken ≠ token

/-- A provider lease: the attempt `active` is in flight under the lease's token, and no
other attempt is in flight or has that token. -/
structure ProviderLease (d : StoredOutboundDelivery) (token : String)
    (atts : List OutboundDeliveryAttempt) (active : OutboundDeliveryAttempt) : Prop where
  dispatchPhase : d.dispatchPhase = some .provider
  activeAttemptId : d.activeAttemptId = some active.id
  mem : active ∈ atts
  status : active.status = .sending
  leaseToken : active.leaseToken = token
  others : ∀ a ∈ atts, a.id ≠ active.id → a.status ≠ .sending ∧ a.leaseToken ≠ token

/-- The delivery `d` and its attempts `atts` agree: the attempts are numbered from one
without gaps, the lease fields are set exactly while the delivery is sending and describe
the attempt in flight, and no record carries an integrity code of the store. -/
structure Coherent (d : StoredOutboundDelivery) (atts : List OutboundDeliveryAttempt) :
    Prop where
  numbers : atts.map (·.attemptNumber) =
    (List.range' 1 d.attemptCount).map fun n : ℕ => JsNumber.ofInt n
  trusted : d.recoveryIntegrityCode = none ∧ d.storageIntegrityCode = none
  trustedAttempts : ∀ a ∈ atts, a.storageIntegrityCode = none
  idle : d.status ≠ .sending → Unleased d ∧ ∀ a ∈ atts, a.status ≠ .sending
  leased : d.status = .sending → ∃ token, d.leaseToken = some token ∧
    d.leaseExpiresAt.isSome ∧
    (PreflightLease d token atts ∨ ∃ active, ProviderLease d token atts active)
  due : d.status = .retrying → d.nextAttemptAt.isSome
  origin : d.retryOriginStatus.isSome →
    d.status = .queued ∨ d.status = .sending ∨ d.status = .retrying

/-! ### The duplicate budget -/

/-- An attempt that may have been accepted by the provider. -/
def isAmbiguous (a : OutboundDeliveryAttempt) : Bool :=
  a.status = .sending || a.status = .accepted || a.status = .unknown

/-- An attempt known to be accepted. -/
def isAccepted (a : OutboundDeliveryAttempt) : Bool := a.status = .accepted

/-- The delivery is at the provider, or ended there without a refusal. -/
def atProvider (d : StoredOutboundDelivery) : Bool :=
  d.status = .sent || d.status = .bounced || d.status = .unknown ||
    (d.status = .sending && d.dispatchPhase = some .provider)

/-- At most `acks + 1` attempts may have been accepted, and only `acks` once the delivery
is ready for another attempt; at most one is known to be accepted, and then the delivery
has left the queue for good. -/
structure Budget (acks : ℕ) (d : StoredOutboundDelivery) (atts : List OutboundDeliveryAttempt) :
    Prop where
  ambiguous : atts.countP isAmbiguous ≤ acks + if atProvider d then 1 else 0
  accepted : atts.countP isAccepted ≤ 1
  final : 0 < atts.countP isAccepted → d.status = .sent ∨ d.status = .bounced

/-! ### Steps -/

/-- What a step shows to the outside: the lease token it issues, or the delivery whose
duplicate risk it acknowledges. -/
inductive LifecycleLabel
  | silent
  | claim (token : String)
  | acknowledge (deliveryId : String)

/-- The deliveries acknowledged by a list of labels. -/
def acknowledged (labels : List LifecycleLabel) : List String :=
  labels.filterMap fun
    | .acknowledge id => some id
    | _ => none

/-- The lease tokens issued by a list of labels. -/
def claimedTokens (labels : List LifecycleLabel) : List String :=
  labels.filterMap fun
    | .claim token => some token
    | _ => none

/-- `d'` is a later version of the delivery `d`, with the same attempts counted. -/
structure Succeeds (d d' : StoredOutboundDelivery) : Prop where
  id : d'.id = d.id
  attemptCount : d'.attemptCount = d.attemptCount
  recoveryIntegrityCode : d'.recoveryIntegrityCode = d.recoveryIntegrityCode
  storageIntegrityCode : d'.storageIntegrityCode = d.storageIntegrityCode

/-- `d'` is out of the provider's hands with no lease: a due retry, failed, unknown or
cancelled. -/
structure Parked (d' : StoredOutboundDelivery) : Prop where
  unleased : Unleased d'
  status : (d'.status = .retrying ∧ d'.nextAttemptAt.isSome) ∨ d'.status = .failed ∨
    d'.status = .unknown ∨ d'.status = .cancelled
  origin : d'.retryOriginStatus.isSome → d'.status = .retrying

/-- How an attempt in flight and its delivery may settle together. -/
inductive Settlement : OutboundDeliveryAttemptStatus → StoredOutboundDelivery → Prop
  | accepted {d'} : d'.status = .sent → Unleased d' → d'.retryOriginStatus = none →
      Settlement .accepted d'
  | unknown {d'} : d'.status = .unknown → Parked d' → Settlement .unknown d'
  | rejectedRetryable {d'} : Parked d' → Settlement .rejectedRetryable d'
  | rejectedPermanent {d'} : Parked d' → Settlement .rejectedPermanent d'

/-- One write to the outbox. -/
inductive LifecycleStep : OutboxTables → LifecycleLabel → OutboxTables → Prop
  /-- A new delivery is queued. -/
  | enqueue {t d} (hnew : ∀ r ∈ t.deliveries, r.id ≠ d.id) (hstatus : d.status = .queued)
      (hcount : d.attemptCount = 0) (hunleased : Unleased d)
      (horigin : d.retryOriginStatus = none) (hrecovery : d.recoveryIntegrityCode = none)
      (hstorage : d.storageIntegrityCode = none) :
      LifecycleStep t .silent (t.insertDelivery d)
  /-- A waiting delivery is leased for preflight under a new token. -/
  | claim {t d d' token} (hd : d ∈ t.deliveries) (hsucceeds : Succeeds d d')
      (hwaiting : d.status = .queued ∨ d.status = .retrying) (hstatus : d'.status = .sending)
      (hphase : d'.dispatchPhase = some .preflight) (hactive : d'.activeAttemptId = none)
      (htoken : d'.leaseToken = some token) (hexpires : d'.leaseExpiresAt.isSome)
      (hnewAttempt : ∀ a ∈ t.attempts, a.leaseToken ≠ token)
      (hnewLease : ∀ r ∈ t.deliveries, r.leaseToken ≠ some token) :
      LifecycleStep t (.claim token) (t.updateDelivery d')
  /-- A waiting or preflighted delivery is put off, refused or cancelled. -/
  | park {t d d'} (hd : d ∈ t.deliveries) (hsucceeds : Succeeds d d')
      (hfrom : d.status = .queued ∨ d.status = .retrying ∨
        (d.status = .sending ∧ d.dispatchPhase = some .preflight)) (hparked : Parked d') :
      LifecycleStep t .silent (t.updateDelivery d')
  /-- A preflighted delivery goes to the provider as a new attempt. -/
  | begin {t d d' a token} (hd : d ∈ t.deliveries) (hid : d'.id = d.id)
      (hcount : d'.attemptCount = d.attemptCount + 1)
      (hrecovery : d'.recoveryIntegrityCode = d.recoveryIntegrityCode)
      (hstorage : d'.storageIntegrityCode = d.storageIntegrityCode)
      (hstatus : d.status = .sending) (hphase : d.dispatchPhase = some .preflight)
      (htoken : d.leaseToken = some token) (hstatus' : d'.status = .sending)
      (hphase' : d'.dispatchPhase = some .provider) (hactive' : d'.activeAttemptId = some a.id)
      (htoken' : d'.leaseToken = some token) (hexpires' : d'.leaseExpiresAt.isSome)
      (hnew : ∀ r ∈ t.attempts, r.id ≠ a.id) (hdelivery : a.deliveryId = d.id)
      (hnumber : a.attemptNumber = JsNumber.ofInt (d.attemptCount + 1))
      (hsending : a.status = .sending) (hattemptToken : a.leaseToken = token)
      (htrusted : a.storageIntegrityCode = none) :
      LifecycleStep t .silent ((t.updateDelivery d').insertAttempt a)
  /-- The attempt in flight and its delivery settle. -/
  | settle {t d d' a a'} (hd : d ∈ t.deliveries) (hsucceeds : Succeeds d d')
      (hstatus : d.status = .sending) (hphase : d.dispatchPhase = some .provider)
      (hactive : d.activeAttemptId = some a.id) (ha : a ∈ t.attempts)
      (hdelivery : a.deliveryId = d.id) (hid : a'.id = a.id)
      (hdelivery' : a'.deliveryId = a.deliveryId) (hnumber : a'.attemptNumber = a.attemptNumber)
      (htoken : a'.leaseToken = a.leaseToken)
      (htrusted : a'.storageIntegrityCode = a.storageIntegrityCode)
      (hsettled : Settlement a'.status d') :
      LifecycleStep t .silent ((t.updateDelivery d').updateAttempt a')
  /-- A failed delivery is queued again. -/
  | reopen {t d d'} (hd : d ∈ t.deliveries) (hsucceeds : Succeeds d d')
      (hstatus : d.status = .failed) (hstatus' : d'.status = .queued) (hunleased : Unleased d') :
      LifecycleStep t .silent (t.updateDelivery d')
  /-- An unknown delivery is queued again, with the duplicate risk acknowledged. -/
  | acknowledge {t d d'} (hd : d ∈ t.deliveries) (hsucceeds : Succeeds d d')
      (hstatus : d.status = .unknown) (hstatus' : d'.status = .queued)
      (hunleased : Unleased d') :
      LifecycleStep t (.acknowledge d.id) (t.updateDelivery d')
  /-- The provider reports a bounce. -/
  | bounce {t d d'} (hd : d ∈ t.deliveries) (hsucceeds : Succeeds d d')
      (hstatus : d.status = .sent ∨ d.status = .unknown) (hstatus' : d'.status = .bounced)
      (hunleased : Unleased d') (horigin : d'.retryOriginStatus = none) :
      LifecycleStep t .silent (t.updateDelivery d')

/-- A sequence of writes. -/
inductive LifecyclePath : OutboxTables → List LifecycleLabel → OutboxTables → Prop
  | nil {t} : LifecyclePath t [] t
  | cons {t u v label labels} : LifecycleStep t label u → LifecyclePath u labels v →
      LifecyclePath t (label :: labels) v

end MailPortal.Outbox
