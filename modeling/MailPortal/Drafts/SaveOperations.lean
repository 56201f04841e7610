import MailPortal.Drafts.Tables
import Mathlib.Data.List.Sort

/-!
# Save Operations

A client claims the save of one version of a draft under a key of its own, which makes a retry the
same save, and under a token that is new each time. A claim that has run out is ended by the next
claim for the version, or by the pass of the alarm; what it copied is then to be cleaned up.

Main definitions:

* `claimDraftSave`, `recordDraftSavePromotion`, `abortDraftSave`, `getDraftSaveOutcome`.
* `promoteExpiredClaims` : the pass of the alarm.
-/

namespace MailPortal.Drafts

def replayRetentionMs : ℤ := 30 * 24 * 60 * 60000
def pruneBatch : ℕ := 100
def expirySweepBatch : ℕ := 100
def cleanupInitialDelayMs : ℤ := 5 * 60000
def maxFiles : ℕ := 10

/-- `decodeDraftSaveDestinationPlan` on the text of a list of strings. -/
def decodeDestinationPlan (keys : List String) : Option (List String) :=
  if keys.length ≤ maxFiles ∧ keys.all (fun key => key ≠ "") ∧ keys.Nodup then some keys else none

def invalidPlanCode : String := "draft_save_destination_plan_invalid"

/-! ### Clean-up intents -/

/-- Whether an intent that is there is given the draft of the new one. -/
inductive IntentDraft where
  | kept | set
deriving DecidableEq

/-- `INSERT INTO draft_save_cleanup_intents ... ON CONFLICT DO UPDATE`. Of a row that is there the
attempts and the generation stay. A plan that cannot be read parks the intent. -/
def upsertIntent (onConflict : IntentDraft) (owner draftId : String) (keys : List String)
    (nextAttemptAt now : ℤ) (intents : List DraftSaveCleanupIntent) :
    List DraftSaveCleanupIntent :=
  Table.upsert DraftSaveCleanupIntent.claimToken owner (fun old =>
    { claimToken := owner
      draftId := match onConflict, old with
        | .kept, some old => old.draftId
        | _, _ => draftId
      destinationKeys := keys
      nextAttemptAt := nextAttemptAt
      verifyUntil := now + replayRetentionMs
      attempts := (old.map DraftSaveCleanupIntent.attempts).getD 0
      state := if (decodeDestinationPlan keys).isSome then .pending else .parked
      generation := (old.map DraftSaveCleanupIntent.generation).getD 0
      lastErrorCode := if (decodeDestinationPlan keys).isSome then none else some invalidPlanCode
      parkedAt := if (decodeDestinationPlan keys).isSome then none else some now
      updatedAt := now }) intents

/-- What a save copied is to be cleaned up, unless it copied nothing. -/
def promoteToCleanup (onConflict : IntentDraft) (owner draftId : String) (keys : List String)
    (nextAttemptAt now : ℤ) (intents : List DraftSaveCleanupIntent) :
    List DraftSaveCleanupIntent :=
  if decodeDestinationPlan keys = some [] then intents
  else upsertIntent onConflict owner draftId keys nextAttemptAt now intents

namespace DraftSaveOperation

variable (operation : DraftSaveOperation)

/-- The owner of the objects that a save copied. -/
def promotionOwner : String := operation.claimToken.getD operation.saveKey

/-- A claim that has run out. -/
def expired (now : ℤ) : Bool :=
  decide (operation.state = .claimed) && decide (operation.claimExpiresAt ≤ now)

/-- A claim for one version of a draft. -/
def claims (draftId : String) (expectedVersion : ℕ) : Bool :=
  decide (operation.draftId = draftId) && decide (operation.expectedVersion = expectedVersion) &&
    decide (operation.state = .claimed)

/-- The claim under a key, with a fingerprint and a token. -/
def claimedBy (saveKey fingerprint claimToken : String) : Bool :=
  decide (operation.saveKey = saveKey) && decide (operation.fingerprint = fingerprint) &&
    decide (operation.claimToken = some claimToken) && decide (operation.state = .claimed)

/-- The operation is over, and was not touched for the time that a client may ask again. -/
def retired (now : ℤ) : Bool :=
  decide (operation.state ≠ .claimed) && decide (operation.updatedAt ≤ now - replayRetentionMs)

end DraftSaveOperation

/-! ### Claims -/

/-- The operations that a claim deletes: the oldest that are over for long. -/
def retiredOperations (now : ℤ) (saves : List DraftSaveOperation) : List DraftSaveOperation :=
  ((saves.filter fun row => row.retired now).insertionSort fun row row' =>
    row.updatedAt < row'.updatedAt ∨
      row.updatedAt = row'.updatedAt ∧ row.saveKey ≤ row'.saveKey).take pruneBatch

def pruneRetired (now : ℤ) (t : DraftTables) : DraftTables :=
  { t with
    saves := Table.deleteWhere (fun row =>
      (retiredOperations now t.saves).any fun retired => retired.saveKey = row.saveKey) t.saves }

/-- The promotions of claims that have run out, for the claimant to roll back. -/
structure StalePromotion where
  destinationKeys : List String
  promotionOwner : String
deriving DecidableEq

/-- What a claim answers. -/
inductive ClaimDraftSaveResult where
  | keyConflict
  | committed (draftId : String) (committedVersion : Option ℕ) (claimToken : Option String)
      (draft : Option DraftSnapshot)
  | inProgress
  | revisionInProgress
  | versionConflict (currentVersion : ℕ)
  | notFound
  | notDraft
  | claimed (stalePromotions : List StalePromotion)
deriving DecidableEq

/-- A save that is asked for. -/
structure ClaimInput where
  saveKey : String
  fingerprint : String
  draftId : String
  expectedVersion : ℕ
  claimToken : String
  claimExpiresAt : ℤ
deriving DecidableEq

/-- The key is in use for another save. -/
def ClaimInput.conflicts (input : ClaimInput) (existing : DraftSaveOperation) : Bool :=
  decide (existing.fingerprint ≠ input.fingerprint) || decide (existing.draftId ≠ input.draftId) ||
    decide (existing.expectedVersion ≠ input.expectedVersion)

/-- The claims for a version that have run out are ended, and what they copied is to be cleaned
up. -/
def endExpiredClaims (draftId : String) (expectedVersion : ℕ) (now : ℤ) (t : DraftTables) :
    DraftTables :=
  let expired := t.saves.filter fun row =>
    row.claims draftId expectedVersion && decide (row.claimExpiresAt ≤ now)
  { t with
    intents := expired.foldl (fun intents row => promoteToCleanup .kept row.promotionOwner
      draftId row.destinationKeys (now + cleanupInitialDelayMs) now intents) t.intents
    saves := Table.updateWhere
      (fun row => row.claims draftId expectedVersion && decide (row.claimExpiresAt ≤ now))
      (fun row => { row with state := .aborted, updatedAt := now }) t.saves }

/-- What the claimant is told about them. -/
def stalePromotions (draftId : String) (expectedVersion : ℕ) (now : ℤ)
    (saves : List DraftSaveOperation) : List StalePromotion :=
  (saves.filter fun row =>
    row.claims draftId expectedVersion && decide (row.claimExpiresAt ≤ now)).filterMap fun row =>
      match decodeDestinationPlan row.destinationKeys with
      | some (key :: keys) => some ⟨key :: keys, row.promotionOwner⟩
      | _ => none

/-- Why a version cannot be saved: there must be no draft for version 0, and one of the expected
version for any other. -/
def refuseVersion (draft : Option EmailRow) (expectedVersion : ℕ) : Option ClaimDraftSaveResult :=
  match draft with
  | none => if expectedVersion = 0 then none else some .notFound
  | some draft =>
      if expectedVersion = 0 then some (.versionConflict draft.draftVersion)
      else if draft.folderId ≠ draftFolder then some .notDraft
      else if draft.draftVersion ≠ expectedVersion then some (.versionConflict draft.draftVersion)
      else none

/-- `INSERT INTO draft_save_operations ... ON CONFLICT DO UPDATE`. Of a row that is there the
fingerprint, the draft and the expected version stay. -/
def insertClaim (input : ClaimInput) (now : ℤ) (t : DraftTables) : DraftTables :=
  { t with
    saves := Table.upsert DraftSaveOperation.saveKey input.saveKey (fun old =>
      { saveKey := input.saveKey
        fingerprint := (old.map DraftSaveOperation.fingerprint).getD input.fingerprint
        draftId := (old.map DraftSaveOperation.draftId).getD input.draftId
        expectedVersion := (old.map DraftSaveOperation.expectedVersion).getD input.expectedVersion
        state := .claimed
        destinationKeys := []
        committedVersion := none
        claimExpiresAt := input.claimExpiresAt
        claimToken := some input.claimToken
        updatedAt := now }) t.saves }

/-- The claim, where its key is not in use. -/
def claimRevision (input : ClaimInput) (now : ℤ) (t : DraftTables) :
    ClaimDraftSaveResult × DraftTables :=
  let stale := stalePromotions input.draftId input.expectedVersion now t.saves
  let t := endExpiredClaims input.draftId input.expectedVersion now t
  if t.saves.any fun row => row.claims input.draftId input.expectedVersion then
    (.revisionInProgress, t)
  else
    match refuseVersion (t.email input.draftId) input.expectedVersion with
    | some refusal => (refusal, t)
    | none => (.claimed stale, insertClaim input now t)

def claimDraftSave (input : ClaimInput) (now : ℤ) (t : DraftTables) :
    ClaimDraftSaveResult × DraftTables :=
  let t := pruneRetired now t
  match t.save input.saveKey with
  | some existing =>
      if input.conflicts existing then (.keyConflict, t)
      else if existing.state = .committed then
        (.committed existing.draftId existing.committedVersion existing.claimToken
          (readDraftSnapshot existing.draftId t), t)
      else if existing.state = .claimed ∧ now < existing.claimExpiresAt then (.inProgress, t)
      else claimRevision input now t
  | none => claimRevision input now t

/-! ### The keys of a promotion -/

/-- A false answer means that no key is recorded by this call. -/
def recordDraftSavePromotion (saveKey fingerprint claimToken : String)
    (destinationKeys : List String) (now : ℤ) (t : DraftTables) : Bool × DraftTables :=
  match decodeDestinationPlan destinationKeys with
  | none => (false, t)
  | some keys =>
      let t := { t with
        saves := Table.updateWhere (fun row => row.claimedBy saveKey fingerprint claimToken)
          (fun row => { row with destinationKeys := keys, updatedAt := now }) t.saves }
      let recorded := t.saves.find? fun row => row.claimedBy saveKey fingerprint claimToken
      (recorded.any fun row => decide (row.destinationKeys = keys), t)

/-! ### Ends of a claim -/

/-- What an abort answers. -/
inductive AbortDraftSaveResult where
  | notClaimed
  | aborted (promotionOwner : String) (destinationKeys : List String)
deriving DecidableEq

/-- The intent that an abort leaves. An intent that is parked because its plan cannot be read is not
written over. -/
def abortIntent (claimToken : String) (operation : DraftSaveOperation) (now : ℤ)
    (intents : List DraftSaveCleanupIntent) : List DraftSaveCleanupIntent :=
  match decodeDestinationPlan operation.destinationKeys with
  | none =>
      if intents.any fun intent => intent.claimToken = claimToken then intents
      else upsertIntent .set claimToken operation.draftId operation.destinationKeys now now intents
  | some _ =>
      promoteToCleanup .set claimToken operation.draftId operation.destinationKeys now now intents

def abortDraftSave (saveKey fingerprint claimToken : String) (now : ℤ) (t : DraftTables) :
    AbortDraftSaveResult × DraftTables :=
  match t.saves.find? fun row => row.claimedBy saveKey fingerprint claimToken with
  | none => (.notClaimed, t)
  | some operation =>
      (.aborted claimToken ((decodeDestinationPlan operation.destinationKeys).getD []),
        { t with
          intents := abortIntent claimToken operation now t.intents
          saves := Table.updateWhere (fun row => row.claimedBy saveKey fingerprint claimToken)
            (fun row => { row with state := .aborted, updatedAt := now }) t.saves })

/-- The claims that a pass of the alarm ends: the first that have run out. -/
def expiredOperations (now : ℤ) (saves : List DraftSaveOperation) : List DraftSaveOperation :=
  ((saves.filter fun row => row.expired now).insertionSort fun row row' =>
    row.claimExpiresAt < row'.claimExpiresAt ∨
      row.claimExpiresAt = row'.claimExpiresAt ∧ row.saveKey ≤ row'.saveKey).take expirySweepBatch

/-- A pass ends one claim. -/
def promoteExpiredClaim (now : ℤ) (t : DraftTables) (operation : DraftSaveOperation) :
    DraftTables :=
  { t with
    intents := promoteToCleanup .set operation.promotionOwner operation.draftId
      operation.destinationKeys now now t.intents
    saves := Table.updateWhere
      (fun row => decide (row.saveKey = operation.saveKey) && row.expired now)
      (fun row => { row with state := .aborted, updatedAt := now }) t.saves }

/-- What a sweep reports. -/
structure ExpiryReport where
  moreDue : Bool
  promoted : ℕ
  integrityFailures : ℕ
deriving DecidableEq

/-- `#promoteExpiredDraftSaveClaimsToCleanup` -/
def promoteExpiredClaims (now : ℤ) (t : DraftTables) : ExpiryReport × DraftTables :=
  let expired := expiredOperations now t.saves
  ({ moreDue := decide (expired.length = expirySweepBatch)
     promoted := expired.length
     integrityFailures := expired.countP fun row =>
       (decodeDestinationPlan row.destinationKeys).isNone },
    expired.foldl (promoteExpiredClaim now) t)

/-! ### Outcomes -/

/-- What is known of a save. -/
inductive DraftSaveOutcome where
  | missing
  | keyConflict
  | found (state : DraftSaveState) (draftId : String) (committedVersion : Option ℕ)
      (claimToken : Option String) (draft : Option DraftSnapshot)
deriving DecidableEq

def getDraftSaveOutcome (saveKey fingerprint : String) (t : DraftTables) : DraftSaveOutcome :=
  match t.save saveKey with
  | none => .missing
  | some operation =>
      if operation.fingerprint ≠ fingerprint then .keyConflict
      else .found operation.state operation.draftId operation.committedVersion operation.claimToken
        (if operation.state = .committed then readDraftSnapshot operation.draftId t else none)

end MailPortal.Drafts
