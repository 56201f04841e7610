import MailPortal.Drafts.SaveInvariant
import Mathlib.Algebra.Group.Int.Defs

/-!
# The Clean-up of Promoted Objects

A save copies its attachments to objects that carry the token of its claim as their owner. A pass of
the alarm takes an intent, reads the object of each of its keys, deletes the objects that have the
token as their owner, and keeps the intent for another pass until the time to verify is over.

A pass waits at every read, at the deletion and before its last transaction; everybody else acts in
between, other passes too. A write may be done and not answered, and a deletion that fails may have
deleted some objects.

Main definitions:

* `PassStage` : where a pass is.
* `DraftSystem` : the tables, the objects, the passes that are under way, and what was done.
* `systemStep`.
-/

namespace MailPortal.Drafts

def cleanupMaxDelayMs : ℤ := 24 * 60 * 60000

/-! ### The statements of a pass -/

/-- The intents that a pass may take, the one it takes first. -/
def dueIntents (now : ℤ) (intents : List DraftSaveCleanupIntent) : List DraftSaveCleanupIntent :=
  (intents.filter fun intent =>
    decide (intent.state = .pending) && decide (intent.nextAttemptAt ≤ now)).insertionSort
      fun intent intent' => intent.nextAttemptAt < intent'.nextAttemptAt ∨
        intent.nextAttemptAt = intent'.nextAttemptAt ∧ intent.claimToken ≤ intent'.claimToken

/-- How the part of a pass that reads and deletes objects ended. -/
inductive Verification where
  | succeeded
  | failed
  | integrityFailure
deriving DecidableEq

def retryDelayMs (attempts : ℕ) : ℤ :=
  min (cleanupInitialDelayMs * 2 ^ min attempts 8) cleanupMaxDelayMs

/-- `SELECT ... FROM draft_save_cleanup_intents WHERE claim_token = ?` -/
def DraftTables.intent (t : DraftTables) (claimToken : String) : Option DraftSaveCleanupIntent :=
  Table.lookup DraftSaveCleanupIntent.claimToken claimToken t.intents

/-- The pass deletes the intent: all keys were verified, and the time to verify is over. -/
def deletesIntent (verification : Verification) (current : DraftSaveCleanupIntent)
    (completedAt : ℤ) : Bool :=
  decide (current.state = .pending) && decide (verification = .succeeded) &&
    decide (current.verifyUntil ≤ completedAt)

/-- An intent whose plan cannot be read is parked. -/
def parkIntent (current : DraftSaveCleanupIntent) (completedAt : ℤ) : DraftSaveCleanupIntent :=
  { current with
    state := .parked
    generation := current.generation + 1
    attempts := current.attempts + 1
    lastErrorCode := some invalidPlanCode
    parkedAt := some completedAt
    updatedAt := completedAt }

/-- An intent is kept for another pass. -/
def retryIntent (verification : Verification) (current : DraftSaveCleanupIntent)
    (completedAt : ℤ) : DraftSaveCleanupIntent :=
  { current with
    attempts := current.attempts + 1
    nextAttemptAt := completedAt + retryDelayMs (current.attempts + 1)
    lastErrorCode := if verification = .succeeded then none else some "draft_save_cleanup_r2_failed"
    updatedAt := completedAt }

/-- The last transaction of a pass. -/
def settleIntent (claimToken : String) (verification : Verification) (completedAt : ℤ)
    (t : DraftTables) : DraftTables :=
  match t.intent claimToken with
  | none => t
  | some current =>
      if current.state ≠ .pending then t
      else if verification = .integrityFailure then
        { t with
          intents := Table.update DraftSaveCleanupIntent.claimToken
            (parkIntent current completedAt) t.intents }
      else if deletesIntent verification current completedAt then
        { t with
          intents := Table.deleteWhere
            (fun intent => decide (intent.claimToken = claimToken)) t.intents }
      else
        { t with
          intents := Table.update DraftSaveCleanupIntent.claimToken
            (retryIntent verification current completedAt) t.intents }

/-! ### Passes -/

/-- Where a pass is: it reads the objects of the keys, or has read them all and deletes those that
it found to be owned; or it is before its last transaction. -/
inductive PassStage where
  | reading (intent : DraftSaveCleanupIntent) (unread owned : List String)
  | settling (intent : DraftSaveCleanupIntent) (verification : Verification)
deriving DecidableEq

def PassStage.intent : PassStage → DraftSaveCleanupIntent
  | reading intent _ _ => intent
  | settling intent _ => intent

/-- A pass takes the first intent that is due. -/
def startPass (now : ℤ) (t : DraftTables) : Option PassStage :=
  (dueIntents now t.intents).head?.map fun intent =>
    match decodeDestinationPlan intent.destinationKeys with
    | some keys => .reading intent keys []
    | none => .settling intent .integrityFailure

/-! ### The system -/

/-- The owner of an object: `customMetadata.promotionOwner`. -/
abbrev R2Object := Option String

/-- The objects of the bucket, by key. -/
abbrev Objects := String → Option R2Object

/-- What was done. A token is what a claim, its objects and its intent have in common. -/
inductive CleanupEvent where
  /-- A claim came with the token. -/
  | drawn (token : String)
  /-- The keys were recorded for the claim. -/
  | recorded (token : String) (keys : List String)
  /-- The save was committed, with attachments under the keys. -/
  | committed (token : String)
  | attached (token : String) (keys : List String)
  /-- A draft was consumed, and the objects of its attachments handed over. -/
  | handedOver (keys : List String)
  /-- A pass read the key and found no object, or one of another owner. -/
  | sawNone (token key : String)
  | sawForeign (token key : String)
  /-- A pass was answered that the object of the key is deleted. -/
  | cleared (token key : String)
  /-- A deletion by a pass took away an object. -/
  | destroyed (token key : String) (object : R2Object)
  /-- A pass deleted the intent. -/
  | settled (token : String) (keys : List String)
deriving DecidableEq

/-- The tables, the bucket, the passes that run, and what happened. -/
structure DraftSystem where
  tables : DraftTables
  objects : Objects
  passes : List PassStage
  history : List CleanupEvent

/-- A mailbox without saves. -/
def DraftSystem.init (emails : List EmailRow) (attachments : List AttachmentRow)
    (bodyObjectKeys : List String) (objects : Objects) : DraftSystem :=
  ⟨.init emails attachments bodyObjectKeys, objects, [], []⟩

/-- How a deletion of several objects ends. One that fails may have deleted some. -/
inductive DeletionOutcome where
  | deleted
  | failed (applied : List String)
deriving DecidableEq

/-- The steps: a call; a write of a promoted object under the condition that there is none; the
removal of an object by somebody else; and what the pass at a position does. -/
inductive SystemEvent where
  | call (call : DraftCall)
  | promote (key owner : String)
  | remove (key : String)
  | startPass (now : ℤ)
  | read (position : ℕ) (answered : Bool)
  | delete (position : ℕ) (outcome : DeletionOutcome)
  | settle (position : ℕ) (completedAt : ℤ)
  | stop (position : ℕ)

/-- The token of the save that a write commits. -/
def commitEvents (t : DraftTables) (call : DraftCall) : List CleanupEvent :=
  ((draftWrite t call).bind DraftWrite.claim).toList.map fun claim => .committed claim.claimToken

/-- The keys that the write of a save names. -/
def attachEvents (t : DraftTables) (input : UpsertInput) (attachments : List AttachmentRow)
    (now : ℤ) : List CleanupEvent :=
  ((draftWrite t (.upsert input attachments now)).bind DraftWrite.claim).toList.map fun claim =>
    .attached claim.claimToken (attachments.map storedAttachmentKey)

/-- What a call does that a later step asks for. -/
def callEvents (t : DraftTables) : DraftCall → List CleanupEvent
  | .claim input _ => [.drawn input.claimToken]
  | .record saveKey fingerprint claimToken destinationKeys now =>
      if (recordDraftSavePromotion saveKey fingerprint claimToken destinationKeys now t).1 then
        [.recorded claimToken destinationKeys]
      else []
  | .upsert input attachments now => commitEvents t (.upsert input attachments now) ++
      attachEvents t input attachments now
  | .consume id expectedVersion now =>
      match (consumeDraftVersion id expectedVersion now t).1 with
      | .ok attachments => [.handedOver (attachments.map storedAttachmentKey)]
      | .error _ => []
  | _ => []

/-- What the last transaction of a pass writes down. -/
def settledEvents (t : DraftTables) (claimToken : String) (verification : Verification)
    (completedAt : ℤ) : List CleanupEvent :=
  match t.intent claimToken with
  | some current =>
      if deletesIntent verification current completedAt then
        [.settled claimToken current.destinationKeys]
      else []
  | none => []

namespace DraftSystem

variable (s : DraftSystem)

/-- The bucket without some objects. -/
def without (objects : Objects) (keys : List String) : Objects :=
  fun key => if key ∈ keys then none else objects key

/-- The objects that a deletion takes away. -/
def destroyedEvents (token : String) (keys : List String) : List CleanupEvent :=
  keys.filterMap fun key => (s.objects key).map fun object => .destroyed token key object

/-- A pass reads the object of its next key. -/
def readObject (position : ℕ) (answered : Bool) : DraftSystem :=
  match s.passes[position]? with
  | some (.reading intent (key :: unread) owned) =>
      if answered = false then { s with passes := s.passes.set position (.settling intent .failed) }
      else
        match s.objects key with
        | none => { s with
            passes := s.passes.set position (.reading intent unread owned)
            history := s.history ++ [.sawNone intent.claimToken key] }
        | some promotionOwner =>
            if promotionOwner = some intent.claimToken then
              { s with passes := s.passes.set position (.reading intent unread (owned ++ [key])) }
            else { s with
              passes := s.passes.set position (.reading intent unread owned)
              history := s.history ++ [.sawForeign intent.claimToken key] }
  | _ => s

/-- A pass that has read all objects deletes those that are owned, where there are some. -/
def deleteObjects (position : ℕ) (outcome : DeletionOutcome) : DraftSystem :=
  match s.passes[position]? with
  | some (.reading intent [] owned) =>
      match owned, outcome with
      | [], _ => { s with passes := s.passes.set position (.settling intent .succeeded) }
      | owned, .deleted => { s with
          objects := without s.objects owned
          passes := s.passes.set position (.settling intent .succeeded)
          history := s.history ++ s.destroyedEvents intent.claimToken owned ++
            owned.map (.cleared intent.claimToken) }
      | owned, .failed applied => { s with
          objects := without s.objects (owned.filter fun key => key ∈ applied)
          passes := s.passes.set position (.settling intent .failed)
          history := s.history ++
            s.destroyedEvents intent.claimToken (owned.filter fun key => key ∈ applied) }
  | _ => s

/-- The last transaction of a pass, and the end of the pass. -/
def settle (position : ℕ) (completedAt : ℤ) : DraftSystem :=
  match s.passes[position]? with
  | some (.settling intent verification) => { s with
      tables := settleIntent intent.claimToken verification completedAt s.tables
      passes := s.passes.eraseIdx position
      history := s.history ++
        settledEvents s.tables intent.claimToken verification completedAt }
  | _ => s

end DraftSystem

def systemStep (s : DraftSystem) : SystemEvent → DraftSystem
  | .call call => { s with
      tables := draftStep s.tables call, history := s.history ++ callEvents s.tables call }
  | .promote key owner =>
      if s.objects key = none then
        { s with objects := Function.update s.objects key (some (some owner)) }
      else s
  | .remove key => { s with objects := Function.update s.objects key none }
  | .startPass now => { s with passes := s.passes ++ (startPass now s.tables).toList }
  | .read position answered => s.readObject position answered
  | .delete position outcome => s.deleteObjects position outcome
  | .settle position completedAt => s.settle position completedAt
  | .stop position => { s with passes := s.passes.eraseIdx position }

end MailPortal.Drafts
