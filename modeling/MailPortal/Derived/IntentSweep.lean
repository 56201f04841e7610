import MailPortal.Derived.IntentController
import MailPortal.Derived.Manifest
import MailPortal.Derived.RepairReconcile

/-!
# The Sweep of Cleanup Intents

A sweep goes over a page of intents. It deletes one that is resolved, abandons one whose lease has
expired, and cleans up after one that is abandoned, or whose command has come to its end: it lists
what is left of the attempt, checks it against the manifest of the mailbox, and hands it over to be
cleaned up. An abandoned intent stays until nothing has been found twice, and for a day.

Main definitions:

* `discoverAttemptObjects` : the complete listing of an attempt.
* `reconcileInboundCleanupIntents` : a sweep.
-/

namespace MailPortal.Derived

open Concurrent Json

variable (host : HostRuntime)

/-! ### Discovery -/

/-- `MAX_DISCOVERED_OBJECTS` -/
def maxDiscoveredObjects : ℕ := 512

/-- `MAX_CLEANUP_INTENT_DISCOVERY_LIST_CALLS` -/
def maxDiscoveryListCalls : ℕ := 514

/-- `namespacePrefixes` -/
def namespacePrefixes (intent : CleanupIntent) : List String :=
  [attachmentPrefixOf intent.emailId intent.projectionAttemptId,
    bodyPrefixOf intent.emailId intent.projectionAttemptId]

/-- The objects so far, with those of a page. A key that comes twice, or an object too many,
throws. -/
def discovered (found page : List DerivedObject) : Option (List DerivedObject) :=
  let objects := found ++ page
  if (objects.map DerivedObject.r2Key).Nodup ∧ objects.length ≤ maxDiscoveredObjects then
    some objects
  else none

/-- The cursor of a truncated page is a new one. -/
def cursorAdvances (next cursor : Option String) (seen : List String) : Bool :=
  next.any fun key => decide (key ≠ "") && decide (next ≠ cursor) && decide (key ∉ seen)

/-- What is found under one name, after what was found before; with the calls that are left. -/
def listNamespace (start : String) : ℕ → Option String → List String → List DerivedObject →
    Throwing (ℕ × List DerivedObject)
  | 0, _, _, _ => orThrow none
  | calls + 1, cursor, seen, found => do
      let page ← call (.listObjects start cursor)
      let objects ← orThrow (discovered found page.objects)
      if page.truncated then
        throwUnless (cursorAdvances page.cursor cursor seen)
        listNamespace start calls page.cursor (page.cursor.toList ++ seen) objects
      else return (calls, objects)

/-- `discoverAttemptObjects` -/
def discoverAttemptObjects (intent : CleanupIntent) : Throwing (List DerivedObject) := do
  let (calls, attachments) ← listNamespace
    (attachmentPrefixOf intent.emailId intent.projectionAttemptId) maxDiscoveryListCalls none [] []
  let (_, objects) ← listNamespace
    (bodyPrefixOf intent.emailId intent.projectionAttemptId) calls none [] attachments
  throwUnless (decide (objects = []) ||
    validCleanupRequest intent.emailId intent.projectionAttemptId
      (objects.map DerivedObject.r2Key))
  return objects

/-! ### The checks against the manifest -/

/-- A committed object that is listed has its length. -/
def lengthsAgree (committed objects : List DerivedObject) : Bool :=
  objects.all fun object => committed.all fun item =>
    decide (item.r2Key = object.r2Key → item.byteLength = object.byteLength)

/-- The committed objects of the attempt are all listed. -/
def listingCovers (intent : CleanupIntent) (committed objects : List DerivedObject) : Bool :=
  committed.all fun item => !(namespacePrefixes intent).any (startsWith item.r2Key) ||
    decide (item.r2Key ∈ objects.map DerivedObject.r2Key)

/-! ### One intent -/

/-- The request for the clean-up of what was found. -/
def CleanupIntent.cleanupRequest (intent : CleanupIntent) (objects : List DerivedObject) :
    CleanupProofRequest :=
  ⟨intent.emailId, intent.projectionAttemptId, objects⟩

/-- What is found of the attempt is handed over to be cleaned up. -/
def cleanUpAttempt (intent : CleanupIntent) : Throwing (List DerivedObject) := do
  let manifest ← orThrow (projectInboundDerivedContentManifest
    (← call (.manifest intent.mailboxId intent.emailId)) intent.emailId)
  let objects ← discoverAttemptObjects intent
  throwUnless (lengthsAgree manifest.committed objects)
  throwUnless (listingCovers intent manifest.committed objects)
  if objects = [] then return objects
  else
    let _counts ← call (.enqueue intent.mailboxId (intent.cleanupRequest objects))
    return objects

/-- `ABANDONED_TOMBSTONE_RETENTION_MS` -/
def abandonedRetentionMs : ℤ := 24 * 60 * 60000

/-- Less than a time has passed since a date, if there is one. -/
def isWithin (date : Option String) (ms now : ℤ) : Bool :=
  date.any fun s => (host.dateParse s).any fun past => now - past < ms

/-- At least a time has passed since a date. -/
def isPast (date : Option String) (ms now : ℤ) : Bool :=
  date.any fun s => (host.dateParse s).any fun past => ms ≤ now - past

def observationsReset (intent : CleanupIntent) : CleanupIntent :=
  { intent with
    revision := intent.revision + 1
    emptyObservedAt := none
    emptyObservations := 0 }

def observedEmpty (observedAt : String) (intent : CleanupIntent) : CleanupIntent :=
  { intent with
    revision := intent.revision + 1
    emptyObservedAt := some observedAt
    emptyObservations := min 2 (intent.emptyObservations + 1) }

/-- The deletion of an intent, which is accepted. -/
def deleteIntent (key : String) : Throwing Bool := do
  call (.delete key)
  return true

/-- An abandoned intent, after the clean-up of what was found. -/
def observeAbandoned (key : String) (current : IntentValue) (now : ℤ)
    (objects : List DerivedObject) : Throwing Bool :=
  if objects ≠ [] then do
    if 0 < current.intent.emptyObservations then
      let _reset ← transitionInboundCleanupIntent host current fun intent =>
        return observationsReset intent
      return false
    else return false
  else if isWithin host current.intent.emptyObservedAt cleanupIntentGraceMs now then return false
  else do
    let terminal ← transitionInboundCleanupIntent host current fun intent => do
      let observedAt ← orThrow (toISOString now)
      return observedEmpty observedAt intent
    if 2 ≤ terminal.intent.emptyObservations ∧
        isPast host terminal.intent.abandonedAt abandonedRetentionMs now = true then
      deleteIntent key
    else return false

/-- An intent, once it is read. The answer is whether it was deleted. `supported` says that the
mailbox has the two methods. -/
def sweepIntent (supported : Bool) (now : ℤ) (key : String) (current : IntentValue) :
    Throwing Bool :=
  match current.intent.status with
  | .projectionResolved => deleteIntent key
  | .building =>
      if (host.dateParse current.intent.leaseUntil).any fun deadline => now ≤ deadline then
        return false
      else do
        let abandonedAt ← orThrow (toISOString now)
        let _abandoned ← transitionInboundCleanupIntent host current fun intent =>
          return abandonedAtTime abandonedAt intent
        return false
  | .commandReady => do
      let resolution ← readRepairAttemptResolution host current.intent.emailId
        current.intent.projectionAttemptId (current.intent.commandFingerprint.getD "")
      if resolution.isNone || !supported then return false
      else
        let _objects ← cleanUpAttempt current.intent
        deleteIntent key
  | .abandoned =>
      if !supported then return false
      else do
        let objects ← cleanUpAttempt current.intent
        observeAbandoned host key current now objects

/-- One key of the page. Whatever throws leaves the intent pending. -/
def sweepKey (supported : Bool) (now : ℤ) (key : String) : LedgerProg Bool :=
  if startsWith key intentPendingPrefix then do
    let deleted ← OptionT.run (m := Prog LedgerOp fun op => Option op.Value) do
      let stored ← readJson key
      match stored.bind fun stored => (readIntent host stored.value).map fun intent =>
          (⟨intent, stored.value⟩ : IntentValue) with
      | none => return false
      | some current =>
          if key ≠ current.intent.key then return false
          else sweepIntent host supported now key current
    return deleted.getD false
  else return false

/-- The keys of a page, with how many intents were deleted. -/
def sweepKeys (supported : Bool) (now : ℤ) : List String → LedgerProg ℕ
  | [] => return 0
  | key :: keys => do
      let deleted ← sweepKey host supported now key
      let others ← sweepKeys supported now keys
      return deleted.toNat + others

/-! ### A sweep -/

/-- `CURSOR_KEY` -/
def intentCursorKey : String := "system/derived-content-cleanup-intents/cursor.json"

/-- What a sweep reports. -/
structure IntentSweep where
  scanned : ℕ
  accepted : ℕ

/-- `reconcileInboundCleanupIntents` -/
def reconcileInboundCleanupIntents (supported : Bool) (now : ℤ) : Throwing IntentSweep := do
  let cursorState ← readJson intentCursorKey
  let page ← call (.list intentPendingPrefix (cursorOf cursorState))
  let accepted ← OptionT.lift (sweepKeys host supported now page.objects)
  throwUnless page.valid
  let updatedAt ← orThrow (toISOString now)
  let _written ← call (.put intentCursorKey (stringify (cursorJson page.next updatedAt))
    (cursorCondition cursorState))
  return ⟨page.objects.length, accepted⟩

end MailPortal.Derived
