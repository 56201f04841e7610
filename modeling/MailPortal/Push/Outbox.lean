import Mathlib.Data.List.Sort
import MailPortal.Lib.Table
import MailPortal.Platform.JavaScript

/-!
# The Push Outbox Tables

A notification is what a new message is to tell the devices of its mailbox. It has one delivery
for each subscription that there was, which is claimed under a lease, sent, and retried or
settled. The functions of the module are functions of the tables, the statements of one
transaction together.

Deleting a notification deletes its deliveries with it. Where a date is invalid a function
throws, and returns `none` here. `Date.parse`, the payload schema and the date arithmetic of the
database are the platform's (`PushPlatform`).
-/

namespace MailPortal.Push

open Table

/-! ### Limits -/

/-- `PUSH_OUTBOX_LIMITS`. -/
def expiryMs : ℤ := 5 * 60000

def retentionMs : ℤ := 7 * 24 * 60 * 60000

def leaseMs : ℤ := 30000

def batchSize : ℕ := 10

def batchWallMs : ℤ := 20000

def sendBudgetMs : ℤ := 8000

def finalizationBudgetMs : ℤ := 500

def maxAttempts : ℕ := 4

def pruneLimit : ℕ := 100

def retryMs : List ℤ := [10000, 30000, 120000]

/-! ### Tables -/

/-- Why a delivery failed. -/
inductive PushOutboxSafeReason
  | temporaryIssue
  | permissionRevoked
  | payloadDefect
  | configurationIssue
  | authorizationRevoked
  | subscriptionRemoved
  | serviceUnavailable
  | attemptsExhausted
  | expired
  deriving DecidableEq

inductive PushDeliveryStatus
  | pending
  | sending
  | retrying
  | accepted
  | terminal
  deriving DecidableEq

/-- `status IN ('pending', 'retrying', 'sending')`. -/
def PushDeliveryStatus.isActive : PushDeliveryStatus → Bool
  | .accepted => false
  | .terminal => false
  | _ => true

inductive PushNotificationState
  | pending
  | completed
  | noTargets
  | expired
  deriving DecidableEq

/-- A row of `push_subscriptions`. -/
structure PushSubscriptionRow where
  id : String
  userId : Option String
  generation : ℤ
  endpoint : String
  p256dh : String
  auth : String
  lastPushAttemptAt : Option String
  lastPushAcceptedAt : Option String
  lastPushFailureAt : Option String
  lastPushFailureReason : Option PushOutboxSafeReason
  consecutivePushFailures : ℤ
  deriving DecidableEq

/-- A row of `push_notifications`. -/
structure PushNotificationRow where
  id : String
  emailId : String
  mailboxId : String
  payloadJson : String
  state : PushNotificationState
  targetCount : ℕ
  createdAt : String
  expiresAt : String
  completedAt : Option String
  deriving DecidableEq

/-- A row of `push_notification_deliveries`. -/
structure PushDeliveryRow where
  notificationId : String
  subscriptionId : String
  targetUserId : String
  status : PushDeliveryStatus
  attemptCount : ℕ
  nextAttemptAt : String
  leaseToken : Option String
  leaseExpiresAt : Option String
  attemptedSubscriptionGeneration : Option ℤ
  lastReason : Option PushOutboxSafeReason
  lastHttpStatus : Option ℤ
  createdAt : String
  updatedAt : String
  acceptedAt : Option String
  terminalAt : Option String
  deriving DecidableEq

/-- The primary key of deliveries. -/
def PushDeliveryRow.key (row : PushDeliveryRow) : String × String :=
  (row.notificationId, row.subscriptionId)

/-- The tables of the outbox. -/
structure PushTables where
  subscriptions : List PushSubscriptionRow
  notifications : List PushNotificationRow
  deliveries : List PushDeliveryRow
  deriving DecidableEq

def PushTables.empty : PushTables := ⟨[], [], []⟩

/-- What the module uses of the language, the payload schema and the database. -/
structure PushPlatform where
  dateParse : String → Option ℤ
  toLowerCase : String → String
  /-- `JSON.parse`, `validateStoredPushPayload` and `JSON.stringify`, of a stored payload, for an
  email and a mailbox. -/
  readPayload : String → String → String → Option String
  /-- `strftime('%Y-%m-%dT%H:%M:%fZ', …, '+7 days')`. -/
  afterSevenDays : String → Option String

/-! ### Enqueueing -/

/-- What `enqueuePushNotification` is given; the payload is the text of one that is valid. -/
structure EnqueuePushInput where
  emailId : String
  mailboxId : String
  payload : String
  now : String
  deriving DecidableEq

/-- The deliveries of a new notification. -/
def newDeliveries (notificationId now : String) (subscriptions : List PushSubscriptionRow) :
    List PushDeliveryRow :=
  subscriptions.filterMap fun s => s.userId.map fun userId =>
    { notificationId := notificationId
      subscriptionId := s.id
      targetUserId := userId
      status := .pending
      attemptCount := 0
      nextAttemptAt := now
      leaseToken := none
      leaseExpiresAt := none
      attemptedSubscriptionGeneration := none
      lastReason := none
      lastHttpStatus := none
      createdAt := now
      updatedAt := now
      acceptedAt := none
      terminalAt := none }

/-- The id of the notification of an email. -/
def notificationIdOf (emailId : String) : String := "push:" ++ emailId

/-- `enqueuePushNotification`; it throws when a key is taken. -/
def enqueuePushNotification (platform : PushPlatform) (input : EnqueuePushInput)
    (tables : PushTables) : Option ((String × ℕ) × PushTables) := do
  let nowMs ← platform.dateParse input.now
  guard (toISOString nowMs = some input.now)
  let notificationId := notificationIdOf input.emailId
  let expiresAt ← toISOString (nowMs + expiryMs)
  guard (tables.notifications.all fun n => n.id ≠ notificationId && n.emailId ≠ input.emailId)
  let deliveries := tables.deliveries ++
    newDeliveries notificationId input.now tables.subscriptions
  guard (deliveries.map PushDeliveryRow.key).Nodup
  let targetCount := deliveries.countP fun d => d.notificationId = notificationId
  some ((notificationId, targetCount), { tables with
    notifications := tables.notifications ++ [{
      id := notificationId
      emailId := input.emailId
      mailboxId := platform.toLowerCase (trim input.mailboxId)
      payloadJson := input.payload
      state := if targetCount = 0 then .noTargets else .pending
      targetCount := targetCount
      createdAt := input.now
      expiresAt := expiresAt
      completedAt := if targetCount = 0 then some input.now else none }]
    deliveries := deliveries })

/-! ### Rows -/

/-- The device did not get it. -/
def PushSubscriptionRow.failed (now : String) (reason : PushOutboxSafeReason)
    (row : PushSubscriptionRow) : PushSubscriptionRow :=
  { row with
    lastPushAttemptAt := some now
    lastPushFailureAt := some now
    lastPushFailureReason := some reason
    consecutivePushFailures := row.consecutivePushFailures + 1 }

/-- The delivery is over. -/
def PushDeliveryRow.settled (now : String) (reason : PushOutboxSafeReason)
    (row : PushDeliveryRow) : PushDeliveryRow :=
  { row with
    status := .terminal
    terminalAt := some now
    updatedAt := now
    lastReason := some reason
    leaseToken := none
    leaseExpiresAt := none }

/-- The delivery is to be tried again. -/
def PushDeliveryRow.retried (nextAttemptAt now : String) (reason : PushOutboxSafeReason)
    (row : PushDeliveryRow) : PushDeliveryRow :=
  { row with
    status := .retrying
    nextAttemptAt := nextAttemptAt
    updatedAt := now
    lastReason := some reason
    leaseToken := none
    leaseExpiresAt := none }

/-- `lease_expires_at <= ?`. -/
def PushDeliveryRow.leaseOver (now : String) (row : PushDeliveryRow) : Bool :=
  row.leaseExpiresAt.any fun t => t ≤ now

/-- A notification of the row has expired. -/
def PushTables.hasExpired (tables : PushTables) (now : String) (row : PushDeliveryRow) : Bool :=
  tables.notifications.any fun n => n.id = row.notificationId && n.expiresAt ≤ now

/-- A notification has a delivery that is not over. -/
def PushTables.hasActive (tables : PushTables) (notificationId : String) : Bool :=
  tables.deliveries.any fun d => d.notificationId = notificationId && d.status.isActive

/-! ### Statements -/

/-- `UPDATE push_notification_deliveries SET … WHERE …`. -/
def PushTables.updateDeliveries (p : PushDeliveryRow → Bool)
    (f : PushDeliveryRow → PushDeliveryRow) (tables : PushTables) : PushTables :=
  { tables with deliveries := updateWhere p f tables.deliveries }

/-- `UPDATE push_notifications SET … WHERE …`. -/
def PushTables.updateNotifications (p : PushNotificationRow → Bool)
    (f : PushNotificationRow → PushNotificationRow) (tables : PushTables) : PushTables :=
  { tables with notifications := updateWhere p f tables.notifications }

/-- `UPDATE push_subscriptions SET … WHERE …`. -/
def PushTables.updateSubscriptions (p : PushSubscriptionRow → Bool)
    (f : PushSubscriptionRow → PushSubscriptionRow) (tables : PushTables) : PushTables :=
  { tables with subscriptions := updateWhere p f tables.subscriptions }

/-- `DELETE FROM push_subscriptions WHERE …`. -/
def PushTables.deleteSubscriptions (p : PushSubscriptionRow → Bool) (tables : PushTables) :
    PushTables :=
  { tables with subscriptions := deleteWhere p tables.subscriptions }

/-- `DELETE FROM push_notifications WHERE …`, with the deliveries of what is deleted. -/
def PushTables.deleteNotifications (p : PushNotificationRow → Bool) (tables : PushTables) :
    PushTables :=
  { tables with
    notifications := deleteWhere p tables.notifications
    deliveries := deleteWhere
      (fun d => tables.notifications.any fun n => n.id = d.notificationId && p n)
      tables.deliveries }

/-! ### Recovery -/

/-- The first step of `recoverAndExpire`: the devices of what has expired. -/
def markExpiredDevices (now : String) (tables : PushTables) : PushTables :=
  tables.updateSubscriptions
    (fun s => tables.deliveries.any fun d => d.subscriptionId = s.id &&
      some d.targetUserId = s.userId && d.status.isActive && tables.hasExpired now d)
    (·.failed now .expired)

/-- Leases that are over: the attempts are exhausted, or the delivery is tried again. -/
def recoverLeases (now : String) (tables : PushTables) : PushTables :=
  (tables.updateDeliveries
      (fun d => d.status = .sending && d.leaseOver now && maxAttempts ≤ d.attemptCount)
      (·.settled now .attemptsExhausted)).updateDeliveries
    (fun d => d.status = .sending && d.leaseOver now && d.attemptCount < maxAttempts)
    (·.retried now now .temporaryIssue)

/-- What has expired is over. -/
def expireDue (now : String) (tables : PushTables) : PushTables :=
  (tables.updateDeliveries (fun d => d.status.isActive && tables.hasExpired now d)
      (·.settled now .expired)).updateNotifications
    (fun n => n.state = .pending && n.expiresAt ≤ now)
    (fun n => { n with state := .expired, completedAt := some (n.completedAt.getD now) })

/-- Notifications without a delivery that is not over are completed. -/
def completeIdle (now : String) (tables : PushTables) : PushTables :=
  tables.updateNotifications (fun n => n.state = .pending && !tables.hasActive n.id)
    (fun n => { n with state := .completed, completedAt := some (n.completedAt.getD now) })

/-- `recoverAndExpire`. -/
def recoverAndExpire (now : String) (tables : PushTables) : PushTables :=
  completeIdle now (expireDue now (recoverLeases now (markExpiredDevices now tables)))

/-- `COALESCE(completed_at, created_at)`. -/
def PushNotificationRow.closedAt (row : PushNotificationRow) : String :=
  row.completedAt.getD row.createdAt

/-- `ORDER BY COALESCE(completed_at, created_at) ASC, id ASC`. -/
def PushNotificationRow.closedBefore (a b : PushNotificationRow) : Prop :=
  a.closedAt < b.closedAt ∨ a.closedAt = b.closedAt ∧ a.id ≤ b.id

instance : DecidableRel PushNotificationRow.closedBefore := fun a b =>
  inferInstanceAs (Decidable (a.closedAt < b.closedAt ∨ a.closedAt = b.closedAt ∧ a.id ≤ b.id))

/-- `prune`. -/
def prune (before : String) (tables : PushTables) : PushTables :=
  let pruned := (((tables.notifications.filter fun n =>
    n.state ≠ .pending && n.closedAt ≤ before).insertionSort
      PushNotificationRow.closedBefore).take pruneLimit).map (·.id)
  tables.deleteNotifications fun n => pruned.contains n.id

/-! ### Claims -/

/-- `DueDelivery`. -/
structure DueDelivery where
  notificationId : String
  subscriptionId : String
  targetUserId : String
  attemptCount : ℕ
  payloadJson : String
  expiresAt : String
  emailId : String
  mailboxId : String
  leaseExpiresAt : String
  deriving DecidableEq

/-- The primary key of what is claimed. -/
def DueDelivery.key (row : DueDelivery) : String × String :=
  (row.notificationId, row.subscriptionId)

/-- `ORDER BY d.next_attempt_at ASC, d.notification_id ASC, d.subscription_id ASC`. -/
def PushDeliveryRow.dueBefore (a b : PushDeliveryRow) : Prop :=
  a.nextAttemptAt < b.nextAttemptAt ∨ a.nextAttemptAt = b.nextAttemptAt ∧
    (a.notificationId < b.notificationId ∨ a.notificationId = b.notificationId ∧
      a.subscriptionId ≤ b.subscriptionId)

instance : DecidableRel PushDeliveryRow.dueBefore := fun a b =>
  inferInstanceAs (Decidable (a.nextAttemptAt < b.nextAttemptAt ∨
    a.nextAttemptAt = b.nextAttemptAt ∧ (a.notificationId < b.notificationId ∨
      a.notificationId = b.notificationId ∧ a.subscriptionId ≤ b.subscriptionId)))

/-- What `claimNext` finds: the delivery that is due first, with its notification. -/
def nextDue (now : String) (tables : PushTables) : Option (PushDeliveryRow × PushNotificationRow) :=
  let isOpen (d : PushDeliveryRow) (n : PushNotificationRow) : Bool :=
    n.id = d.notificationId && n.state = .pending && now < n.expiresAt
  let due := tables.deliveries.filter fun d =>
    (d.status = .pending || d.status = .retrying) && d.nextAttemptAt ≤ now &&
      tables.notifications.any (isOpen d)
  (due.insertionSort PushDeliveryRow.dueBefore).head?.bind fun d =>
    (tables.notifications.find? (isOpen d)).map fun n => (d, n)

/-- `claimNext`. -/
def claimNext (platform : PushPlatform) (now token : String) (tables : PushTables) :
    Option (Option DueDelivery × PushTables) :=
  match nextDue now tables with
  | none => some (none, tables)
  | some (d, n) => do
      let nowMs ← platform.dateParse now
      let leaseExpiresAt ← toISOString (nowMs + leaseMs)
      let claimed (row : PushDeliveryRow) : Bool :=
        row.notificationId = d.notificationId && row.subscriptionId = d.subscriptionId &&
          (row.status = .pending || row.status = .retrying)
      some (some ⟨d.notificationId, d.subscriptionId, d.targetUserId, d.attemptCount + 1,
          n.payloadJson, n.expiresAt, n.emailId, n.mailboxId, leaseExpiresAt⟩,
        tables.updateDeliveries claimed fun row => { row with
          status := .sending
          attemptCount := row.attemptCount + 1
          leaseToken := some token
          leaseExpiresAt := some leaseExpiresAt
          updatedAt := now })

/-- `WHERE notification_id = ? AND subscription_id = ? AND status = 'sending' AND
lease_token = ?`. -/
def isHeld (row : DueDelivery) (token : String) (d : PushDeliveryRow) : Bool :=
  d.notificationId = row.notificationId && d.subscriptionId = row.subscriptionId &&
    d.status = .sending && d.leaseToken = some token

/-- `ownsLease`. -/
def ownsLease (row : DueDelivery) (token : String) (tables : PushTables) : Bool :=
  tables.deliveries.any (isHeld row token)

/-- `expireNotification`. -/
def expireNotification (notificationId now : String) (tables : PushTables) : PushTables :=
  ((tables.updateSubscriptions
        (fun s => tables.deliveries.any fun d => d.notificationId = notificationId &&
          d.subscriptionId = s.id && some d.targetUserId = s.userId && d.status.isActive)
        (·.failed now .expired)).updateDeliveries
      (fun d => d.notificationId = notificationId && d.status.isActive)
      (·.settled now .expired)).updateNotifications
    (fun n => n.id = notificationId && n.state = .pending)
    (fun n => { n with state := .expired, completedAt := some (n.completedAt.getD now) })

/-- `completeNotification`. -/
def completeNotification (notificationId now : String) (tables : PushTables) : PushTables :=
  if tables.hasActive notificationId then tables
  else
    tables.updateNotifications (fun n => n.id = notificationId && n.state = .pending)
      (fun n => { n with
        state := if n.expiresAt ≤ now then .expired else .completed
        completedAt := some now })

/-- `deferClaim`. -/
def deferClaim (row : DueDelivery) (token now : String) (tables : PushTables) : PushTables :=
  tables.updateDeliveries (isHeld row token) fun d => { d with
    status := .pending
    attemptCount := d.attemptCount - 1
    nextAttemptAt := now
    updatedAt := now
    leaseToken := none
    leaseExpiresAt := none }

/-- `terminal`. -/
def terminal (row : DueDelivery) (token now : String) (reason : PushOutboxSafeReason)
    (httpStatus : Option ℤ) (tables : PushTables) : PushTables :=
  completeNotification row.notificationId now (tables.updateDeliveries (isHeld row token)
    fun d => { d.settled now reason with lastHttpStatus := httpStatus })

/-- `nowMs >= Date.parse(text)`: nothing is late when the date is invalid. -/
def isPast (expiry : Option ℤ) (t : ℤ) : Bool := expiry.any fun e => e ≤ t

/-- `retry`. -/
def retry (platform : PushPlatform) (row : DueDelivery) (token : String) (nowMs : ℤ)
    (reason : PushOutboxSafeReason) (tables : PushTables) : Option PushTables := do
  let now ← toISOString nowMs
  if maxAttempts ≤ row.attemptCount || isPast (platform.dateParse row.expiresAt) nowMs then
    some (terminal row token now
      (if maxAttempts ≤ row.attemptCount then .attemptsExhausted else .expired) none tables)
  else do
    let delay ← retryMs[min (row.attemptCount - 1) (retryMs.length - 1)]?
    let expiry ← platform.dateParse row.expiresAt
    let nextAttemptAt ← toISOString (min (nowMs + delay) expiry)
    some (tables.updateDeliveries (isHeld row token) (·.retried nextAttemptAt now reason))

/-! ### Subscriptions -/

structure SubscriptionIdentity where
  id : String
  userId : String
  generation : ℤ
  deriving DecidableEq

/-- A subscription, and the keys to it. -/
structure SubscriptionCapability extends SubscriptionIdentity where
  endpoint : String
  p256dh : String
  auth : String
  deriving DecidableEq

/-- `identity`. -/
def identity (subscriptionId : String) (tables : PushTables) : Option SubscriptionIdentity :=
  (tables.subscriptions.find? fun s => s.id = subscriptionId && s.userId.isSome).bind fun s =>
    s.userId.map fun userId => ⟨s.id, userId, s.generation⟩

/-- `capability`. -/
def capability (subscriptionId targetUserId : String) (tables : PushTables) :
    Option SubscriptionCapability :=
  (tables.subscriptions.find? fun s => s.id = subscriptionId && s.userId = some targetUserId).map
    fun s => ⟨⟨s.id, targetUserId, s.generation⟩, s.endpoint, s.p256dh, s.auth⟩

/-- `WHERE id = ? AND user_id = ? AND generation = ?`. -/
def SubscriptionIdentity.isOf (current : SubscriptionIdentity) (s : PushSubscriptionRow) : Bool :=
  s.id = current.id && s.userId = some current.userId && s.generation = current.generation

/-- `… AND endpoint = ? AND p256dh = ? AND auth = ?`. -/
def SubscriptionCapability.isOf (current : SubscriptionCapability) (s : PushSubscriptionRow) :
    Bool :=
  current.toSubscriptionIdentity.isOf s && s.endpoint = current.endpoint &&
    s.p256dh = current.p256dh && s.auth = current.auth

/-- `updateDeviceFailure`. -/
def updateDeviceFailure (capability : SubscriptionCapability) (now : String)
    (reason : PushOutboxSafeReason) (tables : PushTables) : PushTables :=
  tables.updateSubscriptions capability.isOf (·.failed now reason)

/-- `updateDeviceFailureByIdentity`. -/
def updateDeviceFailureByIdentity (current : SubscriptionIdentity) (now : String)
    (reason : PushOutboxSafeReason) (tables : PushTables) : PushTables :=
  tables.updateSubscriptions current.isOf (·.failed now reason)

/-! ### Results -/

/-- The delivery was accepted. -/
def accept (row : DueDelivery) (token finishedAt : String) (capability : SubscriptionCapability)
    (tables : PushTables) : PushTables :=
  completeNotification row.notificationId finishedAt
    ((tables.updateDeliveries (isHeld row token) fun d => { d with
        status := .accepted
        acceptedAt := some finishedAt
        updatedAt := finishedAt
        lastReason := none
        lastHttpStatus := none
        leaseToken := none
        leaseExpiresAt := none }).updateSubscriptions capability.isOf fun s => { s with
      lastPushAttemptAt := some finishedAt
      lastPushAcceptedAt := some finishedAt
      lastPushFailureAt := none
      lastPushFailureReason := none
      consecutivePushFailures := 0 })

/-- The generation that is sent to is recorded. -/
def recordGeneration (row : DueDelivery) (token : String) (generation : ℤ) (tables : PushTables) :
    PushTables :=
  tables.updateDeliveries
    (fun d => d.notificationId = row.notificationId && d.subscriptionId = row.subscriptionId &&
      d.leaseToken = some token)
    fun d => { d with attemptedSubscriptionGeneration := some generation }

/-- When there is something to do next. -/
def nextDueAt (platform : PushPlatform) (tables : PushTables) : Option String :=
  let due := tables.deliveries.filterMap (fun d =>
      if d.status = .pending || d.status = .retrying then some d.nextAttemptAt else none) ++
    tables.deliveries.filterMap (fun d => if d.status = .sending then d.leaseExpiresAt else none) ++
    tables.notifications.filterMap fun n =>
      if n.state = .pending then none else platform.afterSevenDays n.closedAt
  (due.insertionSort (· ≤ ·)).head?

end MailPortal.Push
