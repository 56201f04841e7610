import MailPortal.Lib.Concurrent
import MailPortal.Push.Outbox

/-!
# Processing the Push Outbox

`processPushOutbox` as a program over the outbox tables. It gives way to others where the code
awaits: while the alarm is set, while access is checked, and while a device is sent to. Between
two of these nothing else happens, but every reading of the clock may be later than the one
before.

A run that throws goes no further. The log records, in the order of time, when a notification was
enqueued and when the provider was called.
-/

namespace MailPortal.Push

open Concurrent

/-- What happened, in the order of time. -/
inductive PushEvent
  | enqueued (notificationId : String)
  /-- The provider was called for a delivery. The boundaries were last checked at `checkedAt`. -/
  | sent (notificationId subscriptionId : String) (checkedAt calledAt : ℤ)
  deriving DecidableEq

/-- The tables, the clock, and what happened. -/
structure PushWorld where
  tables : PushTables
  clock : ℤ
  /-- The last event comes first. -/
  log : List PushEvent
  deriving DecidableEq

def PushWorld.empty : PushWorld := ⟨.empty, 0, []⟩

/-- `SendPushResult`, as far as it is looked at. -/
inductive SendPushResult
  | ok
  | failed (statusCode : Option ℤ)
  deriving DecidableEq

/-- `PUSH_SEND_TIMEOUT_RESULT`. -/
def pushSendTimeoutResult : SendPushResult := .failed none

/-- `ProcessPushOutboxDependencies`, without the storage. -/
structure PushDependencies extends PushPlatform where
  vapidConfigured : Bool
  /-- Whether `scheduleAlarmAt` is given. -/
  schedulesAlarms : Bool

/-! ### Operations -/

/-- What changes the tables, one transaction at a time. -/
inductive PushTransaction
  /-- The first transaction of a run. -/
  | recoverAndPrune (now before : String)
  /-- The last transaction of a run. -/
  | recoverAndExpire (now : String)
  | expireNotification (notificationId now : String)
  | deferClaim (row : DueDelivery) (token now : String)
  | terminal (row : DueDelivery) (token now : String) (reason : PushOutboxSafeReason)
  /-- The alarm could not be set, or access not be checked. -/
  | unavailable (device : Option SubscriptionIdentity) (row : DueDelivery) (token : String)
      (failedAtMs : ℤ) (failedAt : String)
  /-- Access was refused. -/
  | revoke (row : DueDelivery) (token now : String) (device : SubscriptionIdentity)
  | recordGeneration (row : DueDelivery) (token : String) (generation : ℤ)
  | retry (row : DueDelivery) (token : String) (nowMs : ℤ)
  /-- The device failed, which may pass. -/
  | retryAfterFailure (row : DueDelivery) (token : String) (device : SubscriptionCapability)
      (finishedAt : String) (nowMs : ℤ)
  | accept (row : DueDelivery) (token finishedAt : String) (device : SubscriptionCapability)
  /-- The subscription is gone. -/
  | forget (row : DueDelivery) (token finishedAt : String) (device : SubscriptionCapability)
      (statusCode : ℤ)
  /-- The device failed, which will not pass. -/
  | reject (row : DueDelivery) (token finishedAt : String) (device : SubscriptionCapability)
      (reason : PushOutboxSafeReason) (statusCode : ℤ)

/-- What a transaction does; `none` when it throws, and nothing is changed. -/
def PushTransaction.apply (platform : PushPlatform) (tables : PushTables) :
    PushTransaction → Option PushTables
  | .recoverAndPrune now before => some (prune before (Push.recoverAndExpire now tables))
  | .recoverAndExpire now => some (Push.recoverAndExpire now tables)
  | .expireNotification notificationId now =>
      some (Push.expireNotification notificationId now tables)
  | .deferClaim row token now => some (Push.deferClaim row token now tables)
  | .terminal row token now reason => some (Push.terminal row token now reason none tables)
  | .unavailable none row token failedAtMs _ =>
      Push.retry platform row token failedAtMs .serviceUnavailable tables
  | .unavailable (some device) row token failedAtMs failedAt =>
      Push.retry platform row token failedAtMs .serviceUnavailable
        (updateDeviceFailureByIdentity device failedAt .serviceUnavailable tables)
  | .revoke row token now device =>
      some ((Push.terminal row token now .authorizationRevoked none tables).deleteSubscriptions
        device.isOf)
  | .recordGeneration row token generation =>
      some (Push.recordGeneration row token generation tables)
  | .retry row token nowMs => Push.retry platform row token nowMs .temporaryIssue tables
  | .retryAfterFailure row token device finishedAt nowMs =>
      Push.retry platform row token nowMs .temporaryIssue
        (updateDeviceFailure device finishedAt .temporaryIssue tables)
  | .accept row token finishedAt device => some (Push.accept row token finishedAt device tables)
  | .forget row token finishedAt device statusCode =>
      some ((Push.terminal row token finishedAt .permissionRevoked (some statusCode)
        tables).deleteSubscriptions device.isOf)
  | .reject row token finishedAt device reason statusCode =>
      some (updateDeviceFailure device finishedAt reason
        (Push.terminal row token finishedAt reason (some statusCode) tables))

/-- What a worker asks for. -/
inductive PushOp
  /-- `clock()`. -/
  | clock
  /-- `token()`. -/
  | createToken
  /-- `new Date(t).toISOString()`. -/
  | isoText (t : ℤ)
  | transact (transaction : PushTransaction)
  | claimNext (now token : String)
  | ownsLease (row : DueDelivery) (token : String)
  | identity (subscriptionId : String)
  | capability (subscriptionId targetUserId : String)
  | nextDueAt
  /-- `await awaitBeforeDeadline(scheduleAlarmAt(timestamp), remainingMs)`. -/
  | scheduleAlarmAt (timestamp remainingMs : Option ℤ)
  /-- `await awaitBeforeDeadline(canAccess(userId, mailboxId), remainingMs)`. -/
  | canAccess (userId mailboxId : String) (remainingMs : Option ℤ)
  /-- The provider is called. -/
  | send (row : DueDelivery) (device : SubscriptionCapability) (payload : String)
      (checkedAt calledAt : ℤ)
  /-- The outcome of `sendPushBeforeDeadline`, which may not have called the provider. -/
  | sendOutcome (called : Bool)

/-- What an operation answers; `none` for a promise that is rejected. -/
abbrev PushOp.Answer : PushOp → Type
  | .clock => ℤ
  | .createToken => String
  | .isoText _ => String
  | .transact _ => Unit
  | .claimNext .. => Option DueDelivery
  | .ownsLease .. => Bool
  | .identity _ => Option SubscriptionIdentity
  | .capability .. => Option SubscriptionCapability
  | .nextDueAt => Option String
  | .scheduleAlarmAt .. => Option Unit
  | .canAccess .. => Option Bool
  | .send .. => Unit
  | .sendOutcome _ => SendPushResult × Bool

/-- Where the code awaits. -/
def PushOp.waits : PushOp → Bool
  | .scheduleAlarmAt .. => true
  | .canAccess .. => true
  | .sendOutcome _ => true
  | _ => false

/-- `remainingMs <= 0`. -/
def isOverdue (remainingMs : Option ℤ) : Bool := remainingMs.any fun t => t ≤ 0

/-- What an operation may answer and do. -/
def PushOp.Exec (platform : PushPlatform) : (op : PushOp) → PushWorld → op.Answer → PushWorld → Prop
  | .clock, w, t, w' => w.clock ≤ t ∧ w' = { w with clock := t }
  | .createToken, w, _, w' => w' = w
  | .isoText t, w, text, w' => toISOString t = some text ∧ w' = w
  | .transact transaction, w, _, w' =>
      ∃ tables, transaction.apply platform w.tables = some tables ∧ w' = { w with tables := tables }
  | .claimNext now token, w, row, w' =>
      ∃ tables, Push.claimNext platform now token w.tables = some (row, tables) ∧
        w' = { w with tables := tables }
  | .ownsLease row token, w, answer, w' => answer = Push.ownsLease row token w.tables ∧ w' = w
  | .identity subscriptionId, w, answer, w' =>
      answer = Push.identity subscriptionId w.tables ∧ w' = w
  | .capability subscriptionId targetUserId, w, answer, w' =>
      answer = Push.capability subscriptionId targetUserId w.tables ∧ w' = w
  | .nextDueAt, w, answer, w' => answer = Push.nextDueAt platform w.tables ∧ w' = w
  | .scheduleAlarmAt _ remainingMs, w, answer, w' =>
      (isOverdue remainingMs = true → answer = none) ∧ w' = w
  | .canAccess _ _ remainingMs, w, answer, w' =>
      (isOverdue remainingMs = true → answer = none) ∧ w' = w
  | .send row _ _ checkedAt calledAt, w, _, w' =>
      w' = { w with
        log := .sent row.notificationId row.subscriptionId checkedAt calledAt :: w.log }
  | .sendOutcome called, w, answer, w' =>
      (called = false → answer = (pushSendTimeoutResult, true)) ∧ w' = w

/-! ### The program -/

abbrev PushProg (α : Type) : Type := Prog PushOp PushOp.Answer α

/-- One operation. -/
def ask (op : PushOp) : PushProg op.Answer := Prog.ask op

/-- A change of the tables. -/
def transact (transaction : PushTransaction) : PushProg Unit := ask (.transact transaction)

/-- Whether the loop goes on. -/
inductive LoopStep
  | next
  | stop
  deriving DecidableEq

/-- The deadlines of a claim. -/
structure SendDeadlines where
  batchSendDeadline : ℤ
  /-- `none` when the date of the expiry is invalid. -/
  expirySendDeadline : Option ℤ

def SendDeadlines.latestBatchSendStart (deadlines : SendDeadlines) : ℤ :=
  deadlines.batchSendDeadline - sendBudgetMs

def SendDeadlines.latestExpirySendStart (deadlines : SendDeadlines) : Option ℤ :=
  deadlines.expirySendDeadline.map (· - sendBudgetMs)

/-- `Math.min(latestBatchSendStart, latestExpirySendStart) - now`. -/
def SendDeadlines.remainingMs (deadlines : SendDeadlines) (now : ℤ) : Option ℤ :=
  deadlines.latestExpirySendStart.map fun t => min deadlines.latestBatchSendStart t - now

/-- `Math.min(batchSendDeadline, expirySendDeadline)`. -/
def SendDeadlines.sendDeadline (deadlines : SendDeadlines) : Option ℤ :=
  deadlines.expirySendDeadline.map (min deadlines.batchSendDeadline)

/-- The deadlines of a claim, in a run that started at `startedAt`. -/
def sendDeadlines (platform : PushPlatform) (startedAt : ℤ) (row : DueDelivery) :
    SendDeadlines where
  batchSendDeadline := startedAt + batchWallMs - finalizationBudgetMs
  expirySendDeadline := (platform.dateParse row.expiresAt).map (· - finalizationBudgetMs)

/-- `releaseAtBoundary`: how the loop goes on when a boundary was reached. -/
def releaseAtBoundary (deadlines : SendDeadlines) (row : DueDelivery) (claimToken : String)
    (boundaryMs : ℤ) : PushProg (Option LoopStep) :=
  if isPast deadlines.latestExpirySendStart boundaryMs then do
    let now ← ask (.isoText boundaryMs)
    transact (.expireNotification row.notificationId now)
    return some .next
  else if deadlines.latestBatchSendStart ≤ boundaryMs then do
    let now ← ask (.isoText boundaryMs)
    transact (.deferClaim row claimToken now)
    return some .stop
  else return none

/-- The result of a send is recorded. -/
def recordResult (deadlines : SendDeadlines) (row : DueDelivery)
    (claimToken : String) (device : SubscriptionCapability) (result : SendPushResult)
    (timedOut : Bool) : PushProg LoopStep := do
  let owned : Bool ← ask (.ownsLease row claimToken)
  if !owned then return .next
  else do
    let after : Option SubscriptionIdentity ← ask (.identity row.subscriptionId)
    if !(after.any fun current => current.userId = row.targetUserId &&
        current.generation = device.generation) then do
      let nowMs ← ask .clock
      transact (.retry row claimToken nowMs)
      return .next
    else do
      let finishedAtMs ← ask .clock
      if isPast deadlines.expirySendDeadline finishedAtMs ||
          timedOut && isPast deadlines.expirySendDeadline deadlines.batchSendDeadline then do
        let finishedAt ← ask (.isoText finishedAtMs)
        transact (.expireNotification row.notificationId finishedAt)
        return .next
      else if deadlines.batchSendDeadline ≤ finishedAtMs || timedOut then do
        let finishedAt ← ask (.isoText finishedAtMs)
        transact (.retryAfterFailure row claimToken device finishedAt finishedAtMs)
        return .stop
      else do
        let finishedAt ← ask (.isoText finishedAtMs)
        match result with
        | .ok => do
            transact (.accept row claimToken finishedAt device)
            return .next
        | .failed statusCode =>
            match statusCode.filter fun status => 400 ≤ status && status < 500 && status ≠ 429 with
            | some status =>
                if status = 404 || status = 410 then do
                  transact (.forget row claimToken finishedAt device status)
                  return .next
                else do
                  transact (.reject row claimToken finishedAt device
                    (if status = 413 then .payloadDefect else .configurationIssue) status)
                  return .next
            | none => do
                let nowMs ← ask .clock
                transact (.retryAfterFailure row claimToken device finishedAt nowMs)
                return .next

/-- The delivery is sent to a device that may have it. -/
def sendClaim (deadlines : SendDeadlines) (row : DueDelivery)
    (claimToken : String) (payload : String) (device : SubscriptionCapability) :
    PushProg LoopStep := do
  let beforeSendMs ← ask .clock
  let boundary ← releaseAtBoundary deadlines row claimToken beforeSendMs
  match boundary with
  | some step => return step
  | none => do
      transact (.recordGeneration row claimToken device.generation)
      -- `sendPushBeforeDeadline` reads the clock again
      let calledAt ← ask .clock
      if isPast deadlines.sendDeadline calledAt then do
        let outcome : SendPushResult × Bool ← ask (.sendOutcome false)
        recordResult deadlines row claimToken device outcome.1 outcome.2
      else do
        ask (.send row device payload beforeSendMs calledAt)
        let outcome : SendPushResult × Bool ← ask (.sendOutcome true)
        recordResult deadlines row claimToken device outcome.1 outcome.2

/-- The transaction after a promise was rejected, unless a boundary was reached. -/
def failClaim (deadlines : SendDeadlines) (row : DueDelivery) (claimToken : String)
    (device : PushProg (Option SubscriptionIdentity)) : PushProg LoopStep := do
  let failedAtMs ← ask .clock
  let boundary ← releaseAtBoundary deadlines row claimToken failedAtMs
  match boundary with
  | some step => return step
  | none => do
      let failedAt ← ask (.isoText failedAtMs)
      let current ← device
      transact (.unavailable current row claimToken failedAtMs failedAt)
      return .next

/-- Access is checked, and the delivery is sent. -/
def authorizeClaim (deadlines : SendDeadlines) (row : DueDelivery)
    (claimToken : String) (payload : String) (current : SubscriptionIdentity) :
    PushProg LoopStep := do
  let now ← ask .clock
  let authorized : Option Bool ←
    ask (.canAccess row.targetUserId row.mailboxId (deadlines.remainingMs now))
  match authorized with
  | none => failClaim deadlines row claimToken (return some current)
  | some authorized => do
      let owned : Bool ← ask (.ownsLease row claimToken)
      if !owned then return .next
      else if !authorized then do
        let nowMs ← ask .clock
        let now ← ask (.isoText nowMs)
        transact (.revoke row claimToken now current)
        return .next
      else do
        let device : Option SubscriptionCapability ←
          ask (.capability row.subscriptionId row.targetUserId)
        match device with
        | none => do
            let nowMs ← ask .clock
            let now ← ask (.isoText nowMs)
            transact (.terminal row claimToken now .subscriptionRemoved)
            return .next
        | some device => sendClaim deadlines row claimToken payload device

/-- What is claimed is checked, at the time `now` of the claim. -/
def checkClaim (deps : PushDependencies) (deadlines : SendDeadlines) (row : DueDelivery)
    (claimToken now : String) : PushProg LoopStep :=
  match deps.readPayload row.payloadJson row.emailId row.mailboxId with
  | none => do
      transact (.terminal row claimToken now .payloadDefect)
      return .next
  | some payload =>
      if !deps.vapidConfigured then do
        transact (.terminal row claimToken now .serviceUnavailable)
        return .next
      else do
        let current : Option SubscriptionIdentity ← ask (.identity row.subscriptionId)
        match current.filter fun current => current.userId = row.targetUserId with
        | none => do
            transact (.terminal row claimToken now .subscriptionRemoved)
            return .next
        | some current => authorizeClaim deadlines row claimToken payload current

/-- One claim of the loop. -/
def processClaim (deps : PushDependencies) (startedAt : ℤ) (row : DueDelivery)
    (claimToken now : String) : PushProg LoopStep := do
  let deadlines := sendDeadlines deps.toPushPlatform startedAt row
  let boundaryMs ← ask .clock
  let boundary ← releaseAtBoundary deadlines row claimToken boundaryMs
  match boundary with
  | some step => return step
  | none =>
      if !deps.schedulesAlarms then checkClaim deps deadlines row claimToken now
      else do
        let nowMs ← ask .clock
        let alarm : Option Unit ← ask (.scheduleAlarmAt (deps.dateParse row.leaseExpiresAt)
          (deadlines.remainingMs nowMs))
        match alarm with
        | some () => checkClaim deps deadlines row claimToken now
        | none =>
            failClaim deadlines row claimToken do
              let current : Option SubscriptionIdentity ← ask (.identity row.subscriptionId)
              return current.filter fun current => current.userId = row.targetUserId

/-- The loop, for at most so many claims. -/
def processClaims (deps : PushDependencies) (startedAt : ℤ) : ℕ → PushProg Unit
  | 0 => return ()
  | n + 1 => do
      let t ← ask .clock
      if batchWallMs - sendBudgetMs - finalizationBudgetMs ≤ t - startedAt then return ()
      else do
        let nowMs ← ask .clock
        let now ← ask (.isoText nowMs)
        let claimToken ← ask .createToken
        let row : Option DueDelivery ← ask (.claimNext now claimToken)
        match row with
        | none => return ()
        | some row => do
            let step ← processClaim deps startedAt row claimToken now
            match step with
            | .stop => return ()
            | .next => processClaims deps startedAt n

/-- `processPushOutbox`. -/
def processPushOutbox (deps : PushDependencies) : PushProg (Option ℤ) := do
  let startedAt ← ask .clock
  let now ← ask (.isoText startedAt)
  let before ← ask (.isoText (startedAt - retentionMs))
  transact (.recoverAndPrune now before)
  processClaims deps startedAt batchSize
  let nowMs ← ask .clock
  let now ← ask (.isoText nowMs)
  transact (.recoverAndExpire now)
  let next : Option String ← ask .nextDueAt
  return next.bind deps.dateParse

/-! ### What others do -/

/-- What may happen while no run is under way, or the one that is waits. Subscriptions are made,
changed and removed at will. -/
inductive PushWorld.Others (platform : PushPlatform) : PushWorld → PushWorld → Prop
  | enqueue (w : PushWorld) (input : EnqueuePushInput) (answer : String × ℕ) (tables : PushTables)
      (h : enqueuePushNotification platform input w.tables = some (answer, tables)) :
      Others platform w { w with tables := tables, log := .enqueued answer.1 :: w.log }
  | subscriptions (w : PushWorld) (subscriptions : List PushSubscriptionRow)
      (h : (subscriptions.map (·.id)).Nodup) :
      Others platform w { w with tables := { w.tables with subscriptions := subscriptions } }
  /-- A message is deleted, with its notification. -/
  | deleteEmail (w : PushWorld) (emailId : String) :
      Others platform w
        { w with tables := w.tables.deleteNotifications fun n => n.emailId = emailId }
  | tick (w : PushWorld) (t : ℤ) (h : w.clock ≤ t) : Others platform w { w with clock := t }

end MailPortal.Push
