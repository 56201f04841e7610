import MailPortal.Bulk.Jobs

/-!
# A Pass over a Bulk Job

A pass takes the first job of the queue and settles its next row. It looks up the key of the row: a
delivery of the same command is the row's own, made by a pass that stopped before it wrote the job.
Else it copies the attachments and puts the delivery into the outbox. When this fails it looks up
the key once more, and counts the row, or leaves it to the next pass.

A pass is a program that waits at every call, may throw at every call, and may stop for ever.

Main definitions:

* `Op`, `exec` : the calls, and what they may answer and do.
* `bulkPass` : the part of the alarm that is about bulk jobs.
* `Others` : what others do.
-/

namespace MailPortal.Bulk

open Concurrent

/-! ### Calls -/

/-- What a pass asks for. -/
inductive Op
  | readQueue
  | readJob (jobId : String)
  | readRows (jobId : String)
  | canAccessMailbox (userId mailboxId : String)
  | now
  | random
  | randomUUID
  | lookup (idempotencyKey : String)
  | finishPreparation (jobId : String) (cursor : ℕ) (committedToEmailId : Option String)
  | createPreparation (job : BulkJob) (messageId : String)
  | getSource (key : String)
  | putCopy (key : String)
  | enqueue (delivery : OutboundDelivery) (commandFingerprint : String)
      (preparation : Option BulkRecipientPreparation)
  | deleteObjects (keys : List String)
  | queueAttachmentCleanup (emailId : String) (keys : List String)
  | ensureOutboundAlarm
  | ensureMaintenanceAlarm
  | scheduleAlarmAt (timestamp : ℤ)
  | putJob (jobId : String) (job : BulkJob)
  | commitTerminal (jobId : String) (job : Option BulkJob)

/-- The answers. Of an object of R2 the digest of its bytes is read. -/
abbrev Value : Op → Type
  | .readQueue => List String
  | .readJob _ => Option BulkJob
  | .readRows _ => Option (List BulkRecipient)
  | .canAccessMailbox .. => Bool
  | .now => ℤ
  | .random => ℚ
  | .randomUUID => String
  | .lookup _ => Option OutboundDelivery
  | .createPreparation .. => Option BulkRecipientPreparation
  | .getSource _ => Option String
  | .enqueue .. => EnqueueResult
  | .commitTerminal .. => ℕ
  | _ => Unit

/-- A call fails, with its effect or without it, or answers. -/
def Outcome {α : Type} (s after : BulkStore) (Answers : α → Prop) (answer : Option α)
    (s' : BulkStore) : Prop :=
  (answer = none ∧ (s' = s ∨ s' = after)) ∨
    ∃ value, answer = some value ∧ Answers value ∧ s' = after

variable (platform : BulkPlatform)

/-- What a call may answer and do. -/
def exec : (op : Op) → BulkStore → Option (Value op) → BulkStore → Prop
  | .readQueue, s => Outcome s s (· = s.queue)
  | .readJob jobId, s => Outcome s s (· = s.jobs jobId)
  | .readRows jobId, s => Outcome s s (· = s.rows jobId)
  | .lookup idempotencyKey, s => Outcome s s (· = s.delivery idempotencyKey)
  | .finishPreparation jobId cursor _, s =>
      Outcome s (s.dropPreparation jobId cursor) fun _ => True
  | .createPreparation job messageId, s => fun answer s' =>
      ∃ ids : List String, ids.length = job.attachments.length ∧
        Outcome s (s.createPreparation platform job messageId ids)
          (· = s.preparationFor platform job messageId ids) answer s'
  | .enqueue delivery commandFingerprint preparation, s =>
      Outcome s (enqueue delivery commandFingerprint preparation s).2
        (· = (enqueue delivery commandFingerprint preparation s).1)
  | .putJob jobId job, s => Outcome s (s.setJob jobId job) fun _ => True
  | .commitTerminal jobId job, s =>
      Outcome s (s.commitTerminal jobId job) (· = (s.commitTerminal jobId job).queue.length)
  | .canAccessMailbox .., s | .now, s | .random, s | .randomUUID, s | .getSource _, s
  | .putCopy _, s | .deleteObjects _, s | .queueAttachmentCleanup .., s | .ensureOutboundAlarm, s
  | .ensureMaintenanceAlarm, s | .scheduleAlarmAt _, s => Outcome s s fun _ => True

/-! ### The program -/

/-- A job is over, or was not found. -/
def endJob (jobId : String) (job : Option BulkJob) : Throws Op Value Unit := do
  let remainingJobs ← perform (Op.commitTerminal jobId job)
  perform Op.ensureMaintenanceAlarm
  if 0 < remainingJobs then do
    let now ← perform Op.now
    perform (Op.scheduleAlarmAt (now + 100))
  else pure ()

/-- The attachments are copied, unless one is no longer what was admitted. -/
def copyAttachments : List (BulkAttachment × String) → Throws Op Value (Option RecipientError)
  | [] => pure none
  | (attachment, key) :: rest => do
      let source ← perform (Op.getSource attachment.key)
      if source = some attachment.contentSha256 then do
        perform (Op.putCopy key)
        copyAttachments rest
      else pure (some (.attachmentUnavailable attachment.filename))

def prepareCopies (job : BulkJob) :
    Option BulkRecipientPreparation → Throws Op Value (Option RecipientError)
  | none => pure none
  | some preparation => do
      perform Op.ensureMaintenanceAlarm
      copyAttachments (job.attachments.zip preparation.keys)

/-- Copies for a delivery that was there already are deleted, now or later. -/
def deleteOrphans (emailId : String) : List String → Throws Op Value Unit
  | [] => pure ()
  | key :: keys => do
      let deleted ← OptionT.lift (perform (Op.deleteObjects (key :: keys))).run
      match deleted with
      | some _ => pure ()
      | none => perform (Op.queueAttachmentCleanup emailId (key :: keys))

/-- `#enqueueOutboundInternal`, without a failure of the alarm that it arms. -/
def enqueueOutboundInternal (delivery : OutboundDelivery) (commandFingerprint : String)
    (preparation : Option BulkRecipientPreparation) :
    Throws Op Value (Option RecipientError) :=
  let attachments := (preparation.map BulkRecipientPreparation.attachments).getD []
  match platform.inlineImageError (delivery.snapshot.html.getD "")
      (attachments.map PendingOutboundAttachment.filename) with
  | some error => pure (some (.inlineImageMapping error))
  | none => do
      let result ← perform (Op.enqueue delivery commandFingerprint preparation)
      match result with
      | .conflict _ => orThrow none
      | .enqueued emailId replayed => do
          let _ ← OptionT.lift (perform Op.ensureOutboundAlarm).run
          if replayed ∧ emailId ≠ delivery.emailId then do
            deleteOrphans delivery.emailId (attachments.map fun attachment =>
              attachmentKey delivery.emailId attachment.id attachment.filename)
            pure none
          else pure none

/-- How an attempt to enqueue ended: the preparation that it has, and its error. `none` for the
outcome is any other error. -/
structure Attempt where
  preparation : Option BulkRecipientPreparation
  messageId : String
  outcome : Option (Option RecipientError)

/-- The delivery of a row. -/
def recipientDelivery (job : BulkJob) (snapshot : OutboundSnapshot) (fingerprint messageId : String)
    (preparation : Option BulkRecipientPreparation) : OutboundDelivery where
  emailId := messageId
  idempotencyKey := recipientKey job.id job.cursor
  commandFingerprint := some fingerprint
  snapshot :=
    { snapshot with
      threadId := messageId
      attachmentIds := ((preparation.map BulkRecipientPreparation.attachments).getD []).map
        PendingOutboundAttachment.id }

/-- The copies are made and the delivery is enqueued. -/
def enqueuePrepared (job : BulkJob) (snapshot : OutboundSnapshot) (fingerprint messageId : String)
    (preparation : Option BulkRecipientPreparation) : Throws Op Value (Option RecipientError) := do
  let copied ← prepareCopies job preparation
  match copied with
  | some error => pure (some error)
  | none =>
      enqueueOutboundInternal platform
        (recipientDelivery job snapshot fingerprint messageId preparation) fingerprint preparation

def attemptRecipient (job : BulkJob) (snapshot : OutboundSnapshot) (fingerprint : String) :
    Fallible Op Value Attempt := do
  let generated ← (perform Op.randomUUID).run
  match generated with
  | none => pure ⟨none, "", none⟩
  | some generated => do
      let prepared ← (perform (Op.createPreparation job generated)).run
      match prepared with
      | none => pure ⟨none, "", none⟩
      | some preparation => do
          let messageId := (preparation.map BulkRecipientPreparation.messageId).getD generated
          let outcome ←
            (enqueuePrepared platform job snapshot fingerprint messageId preparation).run
          pure ⟨preparation, messageId, outcome⟩

def BulkJob.countEnqueued (job : BulkJob) : BulkJob := { job with enqueued := job.enqueued + 1 }

def rowError (row : BulkRecipient) : BulkRowError := ⟨row.email, "Recipient could not be queued."⟩

def BulkJob.countFailed (job : BulkJob) (row : BulkRecipient) : BulkJob :=
  { job with failed := job.failed + 1, errors := job.errors ++ [rowError row] }

def finishAttempt (attempt : Attempt) (committedToEmailId : Option String) :
    Throws Op Value Unit :=
  match attempt.preparation with
  | some preparation =>
      perform (Op.finishPreparation preparation.jobId preparation.cursor committedToEmailId)
  | none => pure ()

/-- After an attempt that failed, the key is looked up again. -/
def reconcileRecipient (job : BulkJob) (row : BulkRecipient) (fingerprint : String)
    (attempt : Attempt) : Throws Op Value BulkJob := do
  let authoritative ← perform (Op.lookup (recipientKey job.id job.cursor))
  let reconciliation :=
    planBulkEnqueueReconciliation authoritative attempt.messageId fingerprint
  match planBulkRecipientEnqueueDisposition reconciliation.status attempt.outcome.join with
  | .retry => orThrow none
  | .committed => do
      finishAttempt attempt (authoritative.map OutboundDelivery.emailId)
      perform Op.ensureOutboundAlarm
      pure job.countEnqueued
  | .definitiveFailure => do
      finishAttempt attempt none
      pure (job.countFailed row)

/-- The row is settled: the counters of the job say how. -/
def settleRow (job : BulkJob) (row : BulkRecipient) (snapshot : OutboundSnapshot)
    (fingerprint : String) : Option OutboundDelivery → Throws Op Value BulkJob
  | some authoritative =>
      match classifyOutboundReplay (some authoritative) fingerprint with
      | .exact => do
          perform (Op.finishPreparation job.id job.cursor (some authoritative.emailId))
          pure job.countEnqueued
      | _ => do
          perform (Op.finishPreparation job.id job.cursor none)
          reconcileRecipient job row fingerprint ⟨none, authoritative.emailId, none⟩
  | none => do
      let attempt ← OptionT.lift (attemptRecipient platform job snapshot fingerprint)
      match attempt.outcome with
      | some none => pure job.countEnqueued
      | _ => reconcileRecipient job row fingerprint attempt

/-- The job goes on to the next row. -/
def BulkJob.advanced (job : BulkJob) (now : ℤ) (random : ℚ) : BulkJob :=
  { job with
    cursor := job.cursor + 1
    updatedAt := now
    nextEnqueueAt := some (nextBulkEnqueueAt now random) }

def advance (jobId : String) (rows : List BulkRecipient) (job : BulkJob) :
    Throws Op Value Unit := do
  let now ← perform Op.now
  let random ← perform Op.random
  if rows.length ≤ (job.advanced now random).cursor then
    endJob jobId (some { job.advanced now random with status := .done })
  else do
    perform (Op.putJob jobId (job.advanced now random))
    perform (Op.scheduleAlarmAt (nextBulkEnqueueAt now random))

def sendRecipient (jobId : String) (job : BulkJob) (rows : List BulkRecipient)
    (row : BulkRecipient) (snapshot : OutboundSnapshot) : Throws Op Value Unit := do
  let fingerprint := outboundCommandFingerprint platform snapshot job.actorUserId
    (job.attachments.map BulkAttachment.key)
  let authoritative ← perform (Op.lookup (recipientKey job.id job.cursor))
  let settled ← settleRow platform job row snapshot fingerprint authoritative
  advance jobId rows settled

/-- The row at the cursor. To render it may throw. -/
def recipientStep (jobId : String) (job : BulkJob) (rows : List BulkRecipient) :
    Throws Op Value Unit :=
  match rows[job.cursor]? with
  | none => orThrow none
  | some row =>
      match renderRecipient platform job row with
      | none => orThrow none
      | some snapshot => sendRecipient platform jobId job rows row snapshot

def BulkJob.cancelled (job : BulkJob) (now : ℤ) : BulkJob :=
  { job with
    status := .cancelled
    updatedAt := now
    errors := job.errors ++
      [⟨"", "Job cancelled because the initiating user's mailbox access ended."⟩] }

/-- A job whose actor has lost access is cancelled; one that is not due waits. -/
def runJob (jobId : String) (job : BulkJob) (rows : List BulkRecipient) (canAccess : Bool) :
    Throws Op Value Unit := do
  let now ← perform Op.now
  if canAccess = false then endJob jobId (some (job.cancelled now))
  else if now < job.nextEnqueueAt.getD job.createdAt then
    perform (Op.scheduleAlarmAt (job.nextEnqueueAt.getD job.createdAt))
  else
    recipientStep platform jobId
      (if job.status = .queued then { job with status := .running } else job) rows

def authorizeJob (job : BulkJob) : Throws Op Value Bool :=
  if job.actorUserId = "" then pure false
  else perform (Op.canAccessMailbox job.actorUserId job.fromEmail)

/-- A job that is over, or whose rows are all settled, leaves the queue. -/
def dropJob (jobId : String) (job : BulkJob) (rows : List BulkRecipient) :
    Throws Op Value Unit := do
  let now ← perform Op.now
  endJob jobId
    (some (if rows.length ≤ job.cursor then { job with status := .done, updatedAt := now }
      else job))

def takeJob (jobId : String) (rows : List BulkRecipient) : Option BulkJob → Throws Op Value Unit
  | none => endJob jobId none
  | some job =>
      if job.status = .done ∨ job.status = .cancelled ∨ rows.length ≤ job.cursor then
        dropJob jobId job rows
      else do
        let canAccess ← authorizeJob job
        runJob platform jobId job rows canAccess

/-- **The pass.** -/
def bulkPass : Throws Op Value Unit := do
  let queue ← perform Op.readQueue
  match queue with
  | [] => perform Op.ensureMaintenanceAlarm
  | jobId :: _ => do
      let job ← perform (Op.readJob jobId)
      let rows ← perform (Op.readRows jobId)
      takeJob platform jobId (rows.getD []) job

/-! ### Others -/

/-- What an admission has checked of a job and its rows. -/
structure Admits (jobId : String) (job : BulkJob) (rows : List BulkRecipient) : Prop where
  id : job.id = jobId
  status : job.status = .preparing
  total : job.total = rows.length
  counters : job.enqueued = 0 ∧ job.failed = 0 ∧ job.cursor = 0 ∧ job.errors = []
  nonempty : rows ≠ []
  html : bulkPersonalizedHtmlValidationError platform.toBulkHost job.html rows = some none

/-- The delivery is of the command that a row is sent with. -/
def Settles (job : BulkJob) (rows : List BulkRecipient) (i : ℕ) (delivery : OutboundDelivery) :
    Prop :=
  delivery.idempotencyKey = recipientKey job.id i ∧
    ∃ row, rows[i]? = some row ∧
      delivery.commandFingerprint = recipientFingerprint platform job row ∧
      delivery.commandFingerprint.isSome = true

def ensureBulkQueueMembership (queue : List String) (jobId : String) : List String :=
  if jobId ∈ queue then queue else queue ++ [jobId]

/-- What others do: jobs are admitted, prepared or given up, put back into the queue, and forgotten
when they are over; preparations are cleaned up; and other commands are enqueued, under any key that
is free. -/
inductive Others : BulkStore → BulkStore → Prop
  | admitted (s : BulkStore) (jobId : String) (job : BulkJob) (rows : List BulkRecipient)
      (hnew : s.admitted jobId = none) (hadmits : Admits platform jobId job rows) :
      Others s { s.setJob jobId job with
        rows := Function.update s.rows jobId (some rows)
        admitted := Function.update s.admitted jobId (some rows) }
  | prepared (s : BulkStore) (jobId : String) (job : BulkJob) (attachments : List BulkAttachment)
      (now : ℤ) (hjob : s.jobs jobId = some job) (hstatus : job.status = .preparing) :
      Others s { s.setJob jobId { job with
          status := .queued, updatedAt := now, nextEnqueueAt := some (now + 100), attachments } with
        queue := ensureBulkQueueMembership s.queue jobId }
  | givenUp (s : BulkStore) (jobId : String) (job : BulkJob) (error : String) (now : ℤ)
      (hjob : s.jobs jobId = some job) (hstatus : job.status = .preparing) :
      Others s { s.setJob jobId { job with
          status := .failed, errors := [⟨"", error⟩], updatedAt := now } with
        rows := Function.update s.rows jobId none }
  | requeued (s : BulkStore) (jobId : String) (job : BulkJob) (hjob : s.jobs jobId = some job)
      (hactive : job.active = true) :
      Others s { s with queue := ensureBulkQueueMembership s.queue jobId }
  | pruned (s : BulkStore) (jobId : String) (job : BulkJob) (hjob : s.jobs jobId = some job)
      (hterminal : job.terminal = true) :
      Others s { s with
        jobs := Function.update s.jobs jobId none
        rows := Function.update s.rows jobId none }
  | preparationDropped (s : BulkStore) (jobId : String) (cursor : ℕ) :
      Others s (s.dropPreparation jobId cursor)
  | enqueued (s : BulkStore) (delivery : OutboundDelivery)
      (hfree : s.delivery delivery.idempotencyKey = none)
      (hother : ∀ jobId job rows, s.jobs jobId = some job → s.admitted jobId = some rows →
        ∀ i, ¬ Settles platform job rows i delivery) :
      Others s { s with deliveries := s.deliveries ++ [delivery] }

end MailPortal.Bulk
