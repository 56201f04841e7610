import MailPortal.Lib.Table
import MailPortal.Platform.JavaScript

/-!
# Tables of Drafts

A draft is a message in the drafts folder, with a version. A save of a draft is an operation in
three transactions: a claim, a record of the keys that the attachments are copied to, and the
write of the draft. The rows of the operations are kept, so that a client can ask again. The keys
of a save that ended without a write go to a clean-up intent.

Times are in milliseconds.

Main definitions:

* `DraftTables` : the tables that these operations read and write.
* `enqueueUnownedR2Deletion` : objects that no row names any more are to be deleted.
-/

namespace MailPortal.Drafts

/-! ### Rows -/

def draftFolder : String := "draft"

/-- What a draft says. -/
structure DraftContent where
  subject : String
  sender : String
  recipient : String
  cc : Option String
  bcc : Option String
  body : String
  inReplyTo : Option String
  threadId : String
deriving DecidableEq

/-- A row of `emails`. -/
structure EmailRow where
  id : String
  folderId : String
  draftVersion : ℕ
  date : ℤ
  content : DraftContent
  draftCreateKey : Option String
  draftCreateFingerprint : Option String
deriving DecidableEq

/-- A row of `attachments`. -/
structure AttachmentRow where
  id : String
  emailId : String
  filename : String
  mimetype : String
  size : ℕ
  contentId : Option String
  disposition : Option String
  r2Key : Option String
deriving DecidableEq

/-- The states of a save. -/
inductive DraftSaveState where
  | claimed | committed | aborted
deriving DecidableEq

/-- A row of `draft_save_operations`. The column `destination_keys` is kept as the list that its
text encodes. -/
structure DraftSaveOperation where
  saveKey : String
  fingerprint : String
  draftId : String
  expectedVersion : ℕ
  state : DraftSaveState
  destinationKeys : List String
  committedVersion : Option ℕ
  claimExpiresAt : ℤ
  claimToken : Option String
  updatedAt : ℤ
deriving DecidableEq

inductive CleanupIntentState where
  | pending | parked
deriving DecidableEq

/-- A row of `draft_save_cleanup_intents`. -/
structure DraftSaveCleanupIntent where
  claimToken : String
  draftId : String
  destinationKeys : List String
  nextAttemptAt : ℤ
  verifyUntil : ℤ
  attempts : ℕ
  state : CleanupIntentState
  generation : ℕ
  lastErrorCode : Option String
  parkedAt : Option ℤ
  updatedAt : ℤ
deriving DecidableEq

inductive DraftCreateState where
  | active | discarded | consumed | deleted | unavailable
deriving DecidableEq

/-- A row of `draft_create_operations`. -/
structure DraftCreateOperation where
  createKey : String
  fingerprint : String
  draftId : String
  draftVersion : ℕ
  state : DraftCreateState
  updatedAt : ℤ
deriving DecidableEq

/-- A row of `r2_deletion_outbox`, as these operations insert it. -/
structure R2Deletion where
  r2Key : String
  emailId : String
  createdAt : ℤ
deriving DecidableEq

/-- The tables. Of `email_body_objects` only the keys are read here. -/
structure DraftTables where
  emails : List EmailRow
  attachments : List AttachmentRow
  bodyObjectKeys : List String
  saves : List DraftSaveOperation
  intents : List DraftSaveCleanupIntent
  creations : List DraftCreateOperation
  deletions : List R2Deletion

/-- A mailbox in which no draft has been saved yet. -/
def DraftTables.init (emails : List EmailRow) (attachments : List AttachmentRow)
    (bodyObjectKeys : List String) : DraftTables :=
  { emails, attachments, bodyObjectKeys, saves := [], intents := [], creations := [],
    deletions := [] }

/-! ### Reads -/

namespace DraftTables

variable (t : DraftTables)

/-- `SELECT ... FROM emails WHERE id = ?` -/
def email (id : String) : Option EmailRow := Table.lookup EmailRow.id id t.emails

/-- `SELECT ... FROM attachments WHERE email_id = ?` -/
def attachmentsOf (id : String) : List AttachmentRow :=
  t.attachments.filter fun row => row.emailId = id

/-- `SELECT ... FROM draft_save_operations WHERE save_key = ?` -/
def save (saveKey : String) : Option DraftSaveOperation :=
  Table.lookup DraftSaveOperation.saveKey saveKey t.saves

/-- The version that is stored of a message. -/
def versionOf (id : String) : Option ℕ := (t.email id).map EmailRow.draftVersion

end DraftTables

/-- A draft with its attachments. -/
structure DraftSnapshot where
  draft : EmailRow
  attachments : List AttachmentRow
deriving DecidableEq

/-- `#readDraftSnapshot` -/
def readDraftSnapshot (draftId : String) (t : DraftTables) : Option DraftSnapshot :=
  match t.email draftId with
  | some draft =>
      if draft.folderId ≠ draftFolder then none else some ⟨draft, t.attachmentsOf draftId⟩
  | none => none

/-! ### Objects -/

def attachmentKey (emailId attachmentId filename : String) : String :=
  s!"attachments/{emailId}/{attachmentId}/{filename}"

def storedAttachmentKey (attachment : AttachmentRow) : String :=
  attachment.r2Key.getD (attachmentKey attachment.emailId attachment.id attachment.filename)

/-- The message that a key of the old form names. -/
def legacyEmailId (r2Key : String) : Option String :=
  if r2Key.startsWith "attachments/" then
    (r2Key.splitOn "/")[1]?.filter fun emailId => emailId ≠ "" ∧ codeUnits emailId ≤ 300
  else none

/-- `#authoritativelyOwnedR2KeysSync` : a row names the object. -/
def authoritativelyOwned (t : DraftTables) (r2Key : String) : Bool :=
  t.attachments.any (fun row => decide (row.r2Key = some r2Key)) ||
    t.bodyObjectKeys.contains r2Key ||
    t.attachments.any fun row => decide (row.r2Key = none) &&
      decide (legacyEmailId r2Key = some row.emailId) &&
      decide (attachmentKey row.emailId row.id row.filename = r2Key)

/-- `INSERT INTO r2_deletion_outbox ... ON CONFLICT DO NOTHING` -/
def enqueueR2Deletion (deletion : R2Deletion) (t : DraftTables) : DraftTables :=
  if t.deletions.any fun row => row.r2Key = deletion.r2Key then t
  else { t with deletions := t.deletions ++ [deletion] }

/-- `#enqueueUnownedR2DeletionSync` : what no row names is to be deleted. -/
def enqueueUnownedR2Deletion (emailId : String) (r2Keys : List String) (createdAt : ℤ)
    (t : DraftTables) : DraftTables :=
  r2Keys.eraseDups.foldl (fun t r2Key =>
    if authoritativelyOwned t r2Key then t
    else enqueueR2Deletion ⟨r2Key, emailId, createdAt⟩ t) t

end MailPortal.Drafts
