import MailPortal.Bulk.Template
import MailPortal.Lib.Fallible
import Mathlib.Data.Rat.Floor

/-!
# Bulk Jobs

A bulk job is one record with a cursor and counters, and a list of rows. The alarm settles one row
in a pass: it puts a delivery into the outbox under a key made of the job and the cursor, and writes
the record with the next cursor. The outbox has at most one delivery under a key, with the
fingerprint of the command that it was made for.

Every call may fail, with its effect or without it. A transaction may be refused for any reason: a
row too large for the database, a key that is retired.

Main definitions:

* `BulkJob`, `OutboundDelivery`, `BulkStore`.
* `Op`, `exec` : the calls of a pass, and what they may answer and do.
-/

namespace MailPortal.Bulk

open Concurrent

/-! ### Records -/

/-- One shared attachment for a bulk job. -/
structure BulkAttachment where
  key : String
  filename : String
  type : String
  size : ℕ
  contentSha256 : String
deriving DecidableEq

inductive BulkJobStatus where
  | preparing | queued | running | done | failed | cancelled
deriving DecidableEq

/-- Why a row was not sent. -/
structure BulkRowError where
  email : String
  error : String
deriving DecidableEq

/-- A job, as it is stored. -/
structure BulkJob where
  id : String
  status : BulkJobStatus
  actorUserId : String
  fromEmail : String
  subject : String
  html : Option String
  text : Option String
  total : ℕ
  enqueued : ℕ
  failed : ℕ
  cursor : ℕ
  errors : List BulkRowError
  createdAt : ℤ
  updatedAt : ℤ
  nextEnqueueAt : Option ℤ
  attachments : List BulkAttachment
deriving DecidableEq

/-- The alarm works on the job. -/
def BulkJob.active (job : BulkJob) : Bool :=
  decide (job.status = .queued) || decide (job.status = .running)

/-- The job is over. -/
def BulkJob.terminal (job : BulkJob) : Bool :=
  decide (job.status = .done) || decide (job.status = .cancelled) || decide (job.status = .failed)

/-- An attachment of a mail to send. -/
structure PendingOutboundAttachment where
  id : String
  emailId : String
  filename : String
  mimetype : String
  size : ℕ
  contentSha256 : String
deriving DecidableEq

/-- The copies of the attachments that were prepared for one recipient. -/
structure BulkRecipientPreparation where
  jobId : String
  cursor : ℕ
  messageId : String
  attachments : List PendingOutboundAttachment
  keys : List String
deriving DecidableEq

/-- What an outbound message says. -/
structure OutboundSnapshot where
  mailboxId : String
  recipients : List String
  sender : String
  subject : String
  html : Option String
  text : Option String
  threadId : String
  attachmentIds : List String
deriving DecidableEq

/-- A row of `outbound_deliveries`, with the snapshot of its message. -/
structure OutboundDelivery where
  emailId : String
  idempotencyKey : String
  commandFingerprint : Option String
  snapshot : OutboundSnapshot
deriving DecidableEq

/-! ### Commands -/

/-- What the fingerprint of a bulk command is made of; the other fields are the same for all. -/
structure CanonicalCommand where
  actorId : String
  attachments : List String
  sender : String
  html : Option String
  mailboxId : String
  subject : String
  text : Option String
  recipients : List String
deriving DecidableEq

/-- The digest of the canonical text of a command, which is not empty. -/
structure CommandDigest where
  digest : CanonicalCommand → String
  digest_ne : ∀ command, digest command ≠ ""

/-- The platform with its digest, and `safeAttachmentStorageFilename`. -/
structure BulkPlatform extends BulkHost, CommandDigest where
  safeAttachmentStorageFilename : String → String → String

variable (platform : BulkPlatform)

def normalizeAddress (value : String) : String := platform.toLowerCase (trim value)

/-- `outboundCommandFingerprint` on a bulk command. -/
def outboundCommandFingerprint (snapshot : OutboundSnapshot) (actorId : String)
    (stableAttachmentReferences : List String) : String :=
  platform.digest
    { actorId
      attachments := stableAttachmentReferences
      sender := normalizeAddress platform snapshot.sender
      html := snapshot.html
      mailboxId := normalizeAddress platform snapshot.mailboxId
      subject := snapshot.subject
      text := snapshot.text
      recipients := snapshot.recipients.map (normalizeAddress platform) }

/-- `replace(/[\r\n]+/g, " ")`. The flag says that the last character was a line break. -/
def joinLines : Bool → List Char → List Char
  | _, [] => []
  | joined, c :: cs =>
      if c = '\r' ∨ c = '\n' then
        if joined then joinLines true cs else ' ' :: joinLines true cs
      else c :: joinLines false cs

/-- A template that a job may have. An empty one is none. -/
def renderOptional (template : Option String) (row : BulkRecipient) (escapeValues : Bool) :
    Option (Option String) :=
  match template with
  | some template =>
      if template = "" then some none
      else (renderBulkTemplate platform.toBulkHost template row escapeValues).map some
  | none => some none

/-- The message of a row; `none` when the rendering throws. -/
def renderRecipient (job : BulkJob) (row : BulkRecipient) : Option OutboundSnapshot := do
  let subject ← renderBulkTemplate platform.toBulkHost job.subject row false
  let html ← renderOptional platform job.html row true
  let text ← renderOptional platform job.text row false
  some
    { mailboxId := job.fromEmail
      recipients := [platform.toLowerCase row.email]
      sender := job.fromEmail
      subject := trim (String.ofList (joinLines false subject.toList))
      html, text
      threadId := "generated"
      attachmentIds := [] }

/-- The fingerprint of the command that a row is sent with. -/
def recipientFingerprint (job : BulkJob) (row : BulkRecipient) : Option String :=
  (renderRecipient platform job row).map fun snapshot =>
    outboundCommandFingerprint platform snapshot job.actorUserId
      (job.attachments.map BulkAttachment.key)

def recipientKey (jobId : String) (cursor : ℕ) : String := s!"bulk:{jobId}:{cursor}"

def attachmentKey (emailId attachmentId filename : String) : String :=
  s!"attachments/{emailId}/{attachmentId}/{filename}"

def bulkRecipientPreparationKey (jobId : String) (cursor : ℕ) : String :=
  s!"bulk:recipient-preparation:{jobId}:{cursor}"

/-! ### Replays -/

inductive OutboundReplayConflictReason where
  | commandMismatch
  | legacyIdempotencyUnverifiable
deriving DecidableEq

/-- Whether a command was enqueued before. -/
inductive OutboundReplayStatus where
  | none
  | exact
  | conflict (reason : OutboundReplayConflictReason)
deriving DecidableEq

def classifyOutboundReplay (delivery : Option OutboundDelivery) (commandFingerprint : String) :
    OutboundReplayStatus :=
  match delivery with
  | none => .none
  | some delivery =>
      if !truthy delivery.commandFingerprint then .conflict .legacyIdempotencyUnverifiable
      else if delivery.commandFingerprint ≠ some commandFingerprint then .conflict .commandMismatch
      else .exact

/-- What became of an attempt to enqueue that failed. -/
structure BulkEnqueueReconciliation where
  status : OutboundReplayStatus
  deleteAttemptedBytes : Bool
deriving DecidableEq

/-- `planBulkEnqueueReconciliation`. The status `exact` stands for `committed`, and `none` for
`not_committed`. -/
def planBulkEnqueueReconciliation (delivery : Option OutboundDelivery) (attemptedEmailId : String)
    (commandFingerprint : String) : BulkEnqueueReconciliation where
  status := classifyOutboundReplay delivery commandFingerprint
  deleteAttemptedBytes := delivery.all fun delivery => delivery.emailId ≠ attemptedEmailId

/-- The errors that say that a recipient can never be enqueued. -/
inductive RecipientError where
  | attachmentUnavailable (filename : String)
  | inlineImageMapping (error : String)
deriving DecidableEq

/-- What a pass makes of a row. -/
inductive BulkRecipientDisposition where
  | committed
  | definitiveFailure
  | retry
deriving DecidableEq

/-- `planBulkRecipientEnqueueDisposition`. An error that is not one of the recipient is `none`. -/
def planBulkRecipientEnqueueDisposition (status : OutboundReplayStatus)
    (error : Option RecipientError) : BulkRecipientDisposition :=
  match status with
  | .exact => .committed
  | .conflict _ => .definitiveFailure
  | .none => if error.isSome then .definitiveFailure else .retry

/-- `nextBulkEnqueueAt` -/
def nextBulkEnqueueAt (nowMs : ℤ) (randomFraction : ℚ) : ℤ :=
  nowMs + 1500 + ⌊max 0 (min (999999 / 1000000) randomFraction) * 1000⌋

/-! ### The store -/

/-- What a pass reads and writes. The rows that a job was admitted with are kept in `admitted` too,
which no program reads. -/
structure BulkStore where
  queue : List String
  jobs : String → Option BulkJob
  rows : String → Option (List BulkRecipient)
  preparations : String → Option BulkRecipientPreparation
  deliveries : List OutboundDelivery
  admitted : String → Option (List BulkRecipient)

namespace BulkStore

variable (s : BulkStore)

/-- `findDeliveryByIdempotencyKey` -/
def delivery (idempotencyKey : String) : Option OutboundDelivery :=
  s.deliveries.find? fun delivery => delivery.idempotencyKey = idempotencyKey

def setJob (jobId : String) (job : BulkJob) : BulkStore :=
  { s with jobs := Function.update s.jobs jobId (some job) }

def dropPreparation (jobId : String) (cursor : ℕ) : BulkStore :=
  { s with
    preparations :=
      Function.update s.preparations (bulkRecipientPreparationKey jobId cursor) none }

/-- `#commitBulkTerminalSync` -/
def commitTerminal (jobId : String) (job : Option BulkJob) : BulkStore :=
  let s := match job with
    | some job => (s.setJob jobId job).dropPreparation jobId job.cursor
    | none => s
  { s with
    rows := Function.update s.rows jobId none
    queue := s.queue.filter fun candidate => candidate ≠ jobId }

/-- The preparation of a recipient, with new ids for its attachments. -/
def newPreparation (job : BulkJob) (messageId : String) (ids : List String) :
    BulkRecipientPreparation :=
  let attachments := (job.attachments.zip ids).map fun (attachment, id) =>
    { id
      emailId := messageId
      filename := platform.safeAttachmentStorageFilename attachment.filename
        s!"attachments/{messageId}/{id}/"
      mimetype := attachment.type
      size := attachment.size
      contentSha256 := attachment.contentSha256 : PendingOutboundAttachment }
  { jobId := job.id
    cursor := job.cursor
    messageId
    attachments
    keys := attachments.map fun attachment =>
      attachmentKey messageId attachment.id attachment.filename }

/-- `#createBulkRecipientPreparationSync` : what it returns. -/
def preparationFor (job : BulkJob) (messageId : String) (ids : List String) :
    Option BulkRecipientPreparation :=
  if job.attachments = [] then none
  else some ((s.preparations (bulkRecipientPreparationKey job.id job.cursor)).getD
    (newPreparation platform job messageId ids))

/-- … and what it leaves. -/
def createPreparation (job : BulkJob) (messageId : String) (ids : List String) : BulkStore :=
  { s with
    preparations := Function.update s.preparations
      (bulkRecipientPreparationKey job.id job.cursor)
      ((s.preparationFor platform job messageId ids).or
        (s.preparations (bulkRecipientPreparationKey job.id job.cursor))) }

end BulkStore

/-- What the transaction of an enqueue returns: the message of the delivery, and whether it was
there already. A delivery of another command is an error. -/
inductive EnqueueResult where
  | enqueued (emailId : String) (replayed : Bool)
  | conflict (reason : OutboundReplayConflictReason)
deriving DecidableEq

/-- The transaction of `#enqueueOutboundInternal`. -/
def enqueue (delivery : OutboundDelivery) (fingerprint : String)
    (preparation : Option BulkRecipientPreparation) (s : BulkStore) : EnqueueResult × BulkStore :=
  let finish (s : BulkStore) : BulkStore :=
    match preparation with
    | some preparation => s.dropPreparation preparation.jobId preparation.cursor
    | none => s
  match s.delivery delivery.idempotencyKey with
  | some existing =>
      match classifyOutboundReplay (some existing) fingerprint with
      | .conflict reason => (.conflict reason, s)
      | _ => (.enqueued existing.emailId true, finish s)
  | none => (.enqueued delivery.emailId false,
      finish { s with deliveries := s.deliveries ++ [delivery] })

end MailPortal.Bulk
