import MailPortal.Drafts.SaveOperations
import MailPortal.Lib.Failure
import MailPortal.Lib.Runs

/-!
# Writes of Drafts

A write of a draft names the version that it replaces, or none where it makes the draft. With the
key, the fingerprint and the token of a save it needs the claim to stand, and commits it. A draft
that is sent or thrown away is deleted, at the version that was sent or seen.

Main definitions:

* `upsertDraft`, `consumeDraftVersion`, `discardDraft`.
* `draftStep` : all operations on drafts and their saves, each in its transaction.
-/

namespace MailPortal.Drafts

open Failure

/-! ### Creations -/

/-- What became of an earlier creation under the same key. -/
inductive DraftCreateReplay where
  | missing
  | conflict (draftId : String) (currentVersion : ℕ)
  | superseded (draftId : String) (currentVersion : ℕ)
  | unavailable (draftId : String) (currentVersion : ℕ) (reason : DraftCreateState)
  | replay (draftId : String) (draft : DraftSnapshot)
deriving DecidableEq

/-- `#getDraftCreateRecord` -/
def DraftTables.creation (t : DraftTables) (createKey : String) : Option DraftCreateOperation :=
  Table.lookup DraftCreateOperation.createKey createKey t.creations

/-- The draft of a creation that was recorded with version 1. -/
def replayedDraft (record : DraftCreateOperation) (t : DraftTables) : DraftCreateReplay :=
  match t.email record.draftId with
  | none => .unavailable record.draftId record.draftVersion .unavailable
  | some draft =>
      if draft.folderId ≠ draftFolder then
        .unavailable record.draftId draft.draftVersion .unavailable
      else if draft.draftVersion ≠ 1 then .superseded record.draftId draft.draftVersion
      else .replay record.draftId ⟨draft, t.attachmentsOf record.draftId⟩

/-- `#getDraftCreateReplay`, with `classifyDraftCreateReplay`. -/
def getDraftCreateReplay (createKey fingerprint : String) (t : DraftTables) : DraftCreateReplay :=
  match t.creation createKey with
  | none => .missing
  | some record =>
      if record.fingerprint = fingerprint ∧ record.state ≠ .active then
        .unavailable record.draftId record.draftVersion record.state
      else if record.fingerprint ≠ fingerprint then .conflict record.draftId record.draftVersion
      else if record.draftVersion ≠ 1 then .superseded record.draftId record.draftVersion
      else replayedDraft record t

/-- `#markDraftCreateOperation` -/
def markDraftCreateOperation (draftId : String) (state : DraftCreateState) (draftVersion : ℕ)
    (updatedAt : ℤ) (t : DraftTables) : DraftTables :=
  { t with
    creations := Table.updateWhere (fun row => decide (row.draftId = draftId))
      (fun row => { row with state, draftVersion, updatedAt }) t.creations }

/-! ### Updates and insertions -/

/-- The keys that a write may come with. An empty string is taken for none. -/
structure UpsertInput where
  id : String
  expectedVersion : Option ℕ
  createKey : Option String
  createFingerprint : Option String
  content : DraftContent
  saveKey : Option String
  saveFingerprint : Option String
  saveClaimToken : Option String
  stagingCleanupKeys : List String
deriving DecidableEq

/-- Two strings that are both there, and not empty. -/
def bothGiven (a b : Option String) : Option (String × String) :=
  match a, b with
  | some a, some b => if a ≠ "" ∧ b ≠ "" then some (a, b) else none
  | _, _ => none

/-- The key, the fingerprint and the token of a save. -/
structure SaveClaim where
  saveKey : String
  fingerprint : String
  claimToken : String
deriving DecidableEq

namespace UpsertInput

variable (input : UpsertInput)

def hasSaveClaim : Bool :=
  truthy input.saveKey || truthy input.saveFingerprint || truthy input.saveClaimToken

def saveClaim : Option SaveClaim :=
  match bothGiven input.saveKey input.saveFingerprint, bothGiven input.saveKey input.saveClaimToken
  with
  | some (saveKey, fingerprint), some (_, claimToken) => some ⟨saveKey, fingerprint, claimToken⟩
  | _, _ => none

def creationKeys : Option (String × String) := bothGiven input.createKey input.createFingerprint

end UpsertInput

/-- What a write of a draft answers. -/
inductive UpsertDraftResult where
  | saveClaimLost
  | creationReplay (draftId : String) (draft : DraftSnapshot)
  | creationConflict (draftId : String) (currentVersion : ℕ)
  | creationSuperseded (draftId : String) (currentVersion : ℕ)
  | creationUnavailable (draftId : String) (currentVersion : ℕ) (reason : DraftCreateState)
  | notDraft
  | notFound
  | versionConflict (currentVersion : ℕ)
  | saved (draftId : String) (draftVersion : ℕ) (replacedAttachments : List AttachmentRow)
      (draft : DraftSnapshot)
deriving DecidableEq

/-- The claim stands, for the draft and the version of the write. -/
def claimStands (input : UpsertInput) (claim : SaveClaim) (t : DraftTables) : Bool :=
  (t.save claim.saveKey).any fun row => decide (row.fingerprint = claim.fingerprint) &&
    decide (row.claimToken = some claim.claimToken) && decide (row.draftId = input.id) &&
    decide (row.expectedVersion = input.expectedVersion.getD 0) && decide (row.state = .claimed)

/-- Why a write is refused before the draft is looked at. -/
def refuseClaim (input : UpsertInput) (t : DraftTables) : Option UpsertDraftResult :=
  if input.hasSaveClaim ∧ input.saveClaim = none then some .saveClaimLost
  else if input.saveClaim.any fun claim => !claimStands input claim t then some .saveClaimLost
  else none

/-- Why a creation is refused. -/
def refuseCreation (input : UpsertInput) (t : DraftTables) : Option UpsertDraftResult :=
  match input.creationKeys with
  | none => none
  | some (createKey, fingerprint) =>
      match getDraftCreateReplay createKey fingerprint t with
      | .missing => none
      | .replay draftId draft => some (.creationReplay draftId draft)
      | .conflict draftId currentVersion => some (.creationConflict draftId currentVersion)
      | .superseded draftId currentVersion => some (.creationSuperseded draftId currentVersion)
      | .unavailable draftId currentVersion reason =>
          some (.creationUnavailable draftId currentVersion reason)

/-- Why a write of this version is refused. -/
def refuseWrite (existing : Option EmailRow) (expectedVersion : Option ℕ) :
    Option UpsertDraftResult :=
  match existing, expectedVersion with
  | none, none => none
  | none, some _ => some .notFound
  | some existing, expectedVersion =>
      if existing.folderId ≠ draftFolder then some .notDraft
      else if expectedVersion ≠ some existing.draftVersion then
        some (.versionConflict existing.draftVersion)
      else none

/-- The draft is replaced by the next version, without attachments. -/
def updateDraft (input : UpsertInput) (existing : EmailRow) (now : ℤ) (t : DraftTables) :
    DraftTables :=
  markDraftCreateOperation input.id .active (existing.draftVersion + 1) now
    { t with
      emails := Table.updateWhere
        (fun row => decide (row.id = input.id) &&
          decide (some row.draftVersion = input.expectedVersion))
        (fun row => { row with
          date := now, content := input.content, draftVersion := existing.draftVersion + 1 })
        t.emails
      attachments := Table.deleteWhere (fun row => decide (row.emailId = input.id)) t.attachments }

/-- The draft is made, with version 1. The key of its creation must be new, where there is one. -/
def insertDraft (input : UpsertInput) (now : ℤ) (t : DraftTables) : Except String DraftTables := do
  require (input.createKey = none ∨ t.emails.all fun row => row.draftCreateKey ≠ input.createKey)
    "UNIQUE constraint failed: emails.draft_create_key"
  return { t with
    emails := t.emails ++ [⟨input.id, draftFolder, 1, now, input.content, input.createKey,
      input.createFingerprint⟩]
    creations := match input.creationKeys with
      | some (createKey, fingerprint) =>
          t.creations ++ [⟨createKey, fingerprint, input.id, 1, .active, now⟩]
      | none => t.creations }

/-- The row of the draft that is written. -/
def placeDraft (input : UpsertInput) (existing : Option EmailRow) (now : ℤ) (t : DraftTables) :
    Except String DraftTables :=
  match existing with
  | some existing => pure (updateDraft input existing now t)
  | none => insertDraft input now t

/-- `INSERT INTO attachments` : each id must be new, and each message there. -/
def insertAttachments (attachments : List AttachmentRow) (t : DraftTables) :
    Except String DraftTables := do
  require ((t.attachments ++ attachments).map AttachmentRow.id).Nodup
    "UNIQUE constraint failed: attachments.id"
  require (∀ row ∈ attachments, (t.email row.emailId).isSome) "FOREIGN KEY constraint failed"
  return { t with attachments := t.attachments ++ attachments }

/-- The save is committed, with the version that it wrote. -/
def commitSave (claim : Option SaveClaim) (draftVersion : ℕ) (now : ℤ) (t : DraftTables) :
    DraftTables :=
  match claim with
  | none => t
  | some claim => { t with
      saves := Table.updateWhere
        (fun row => row.claimedBy claim.saveKey claim.fingerprint claim.claimToken)
        (fun row => { row with
          state := .committed, committedVersion := some draftVersion, updatedAt := now }) t.saves }

/-- The write of a draft that may be written. -/
def writeDraft (input : UpsertInput) (attachments : List AttachmentRow) (existing : Option EmailRow)
    (now : ℤ) (t : DraftTables) : Except String (UpsertDraftResult × DraftTables) := do
  let replaced := if existing.isSome then t.attachmentsOf input.id else []
  let draftVersion := (existing.map fun row => row.draftVersion + 1).getD 1
  let t ← placeDraft input existing now t
  let t ← insertAttachments attachments t
  let t := enqueueUnownedR2Deletion input.id
    (replaced.map storedAttachmentKey ++ input.stagingCleanupKeys) now t
  let t := commitSave input.saveClaim draftVersion now t
  match readDraftSnapshot input.id t with
  | some draft =>
      require (draft.draft.draftVersion = draftVersion)
        "Committed draft snapshot could not be materialized"
      return (.saved input.id draftVersion replaced draft, t)
  | none => throw "Committed draft snapshot could not be materialized"

/-- The staging objects that a write may ask to delete. -/
def stagingKeysValid (keys : List String) : Prop :=
  keys.length ≤ maxFiles ∧ keys.Nodup ∧
    ∀ key ∈ keys, key ≠ "" ∧ codeUnits key ≤ 1024 ∧ key.startsWith "uploads/" = true ∧
      (key.splitOn "..").length = 1

instance (keys : List String) : Decidable (stagingKeysValid keys) := by
  unfold stagingKeysValid
  infer_instance

/-- Create or replace a draft. -/
def upsertDraft (input : UpsertInput) (attachments : List AttachmentRow) (now : ℤ)
    (t : DraftTables) : Except String (UpsertDraftResult × DraftTables) := do
  require (stagingKeysValid input.stagingCleanupKeys) "Draft staging cleanup scope is invalid"
  match ((refuseClaim input t).or (refuseCreation input t)).or
      (refuseWrite (t.email input.id) input.expectedVersion) with
  | some refusal => return (refusal, t)
  | none => writeDraft input attachments (t.email input.id) now t

/-! ### Deletions -/

/-- `#refreshTerminalDraftSaveRetention` : the saves of the draft that are over are kept longer. -/
def refreshTerminalRetention (draftId : String) (now : ℤ) (t : DraftTables) : DraftTables :=
  { t with
    saves := Table.updateWhere
      (fun row => decide (row.draftId = draftId) && decide (row.state ≠ .claimed))
      (fun row => { row with updatedAt := now }) t.saves }

/-- `DELETE FROM emails WHERE id = ? AND draft_version = ?`, with the attachments. -/
def deleteEmail (id : String) (draftVersion : ℕ) (t : DraftTables) : DraftTables :=
  let deleted := fun row : EmailRow =>
    decide (row.id = id) && decide (row.draftVersion = draftVersion)
  { t with
    emails := Table.deleteWhere deleted t.emails
    attachments := Table.deleteWhere
      (fun row => t.emails.any fun email => deleted email && decide (email.id = row.emailId))
      t.attachments }

/-- The draft is gone, and its creations say why. -/
def removeDraft (id : String) (expectedVersion : ℕ) (state : DraftCreateState) (now : ℤ)
    (t : DraftTables) : DraftTables :=
  let keys := (t.attachmentsOf id).map storedAttachmentKey
  let t := keys.foldl (fun t r2Key => enqueueR2Deletion ⟨r2Key, id, now⟩ t) t
  let t := markDraftCreateOperation id state expectedVersion now t
  deleteEmail id expectedVersion (refreshTerminalRetention id now t)

/-- Why a draft is not removed. -/
inductive RemovalRefusal where
  | missing
  | notDraft
  | versionChanged (currentVersion : ℕ)
deriving DecidableEq

def refuseRemoval (draft : Option EmailRow) (expectedVersion : ℕ) : Option RemovalRefusal :=
  match draft with
  | none => some .missing
  | some draft =>
      if draft.folderId ≠ draftFolder then some .notDraft
      else if draft.draftVersion ≠ expectedVersion then some (.versionChanged draft.draftVersion)
      else none

/-- The draft is removed at the expected version, or the refusal is told. -/
def removeDraftVersion (id : String) (expectedVersion : ℕ) (state : DraftCreateState) (now : ℤ)
    (t : DraftTables) : Except RemovalRefusal (List AttachmentRow) × DraftTables :=
  match refuseRemoval (t.email id) expectedVersion with
  | some refusal => (.error refusal, t)
  | none => (.ok (t.attachmentsOf id), removeDraft id expectedVersion state now t)

/-- Consume the draft revision that was sent. -/
def consumeDraftVersion (id : String) (expectedVersion : ℕ) (now : ℤ) (t : DraftTables) :
    Except RemovalRefusal (List AttachmentRow) × DraftTables :=
  removeDraftVersion id expectedVersion .consumed now t

def discardDraft (id : String) (expectedVersion : ℕ) (now : ℤ) (t : DraftTables) :
    Except RemovalRefusal (List AttachmentRow) × DraftTables :=
  removeDraftVersion id expectedVersion .discarded now t

/-! ### The system -/

/-- The operations, with any clock readings. -/
inductive DraftCall where
  | claim (input : ClaimInput) (now : ℤ)
  | record (saveKey fingerprint claimToken : String) (destinationKeys : List String) (now : ℤ)
  | abort (saveKey fingerprint claimToken : String) (now : ℤ)
  | upsert (input : UpsertInput) (attachments : List AttachmentRow) (now : ℤ)
  | expire (now : ℤ)
  | consume (id : String) (expectedVersion : ℕ) (now : ℤ)
  | discard (id : String) (expectedVersion : ℕ) (now : ℤ)

/-- The tables after an operation. One that throws changes nothing. -/
def draftStep (t : DraftTables) : DraftCall → DraftTables
  | .claim input now => (claimDraftSave input now t).2
  | .record saveKey fingerprint claimToken destinationKeys now =>
      (recordDraftSavePromotion saveKey fingerprint claimToken destinationKeys now t).2
  | .abort saveKey fingerprint claimToken now =>
      (abortDraftSave saveKey fingerprint claimToken now t).2
  | .upsert input attachments now =>
      match upsertDraft input attachments now t with
      | .ok (_, t') => t'
      | .error _ => t
  | .expire now => (promoteExpiredClaims now t).2
  | .consume id expectedVersion now => (consumeDraftVersion id expectedVersion now t).2
  | .discard id expectedVersion now => (discardDraft id expectedVersion now t).2

end MailPortal.Drafts
