import MailPortal.Derived.Ledger

/-!
# Resolving Repair Attempts

An attempt is pending until its resolution is written, under a key of its own and only if there is
none. A discarded attempt is then cleaned up, and only then its pending record is deleted. All of
this is done by `reconcilePendingInboundRepairAttempts`, which any number of workers run at any
time; the mailbox and the repairs themselves resolve attempts as well.

Main definitions:

* `persistPendingRepairAttempt`, `resolveRepairAttempt` : the two records.
* `reconcilePendingInboundRepairAttempts` : a run over one page of pending records.
-/

namespace MailPortal.Derived

open Concurrent Json

variable (host : HostRuntime)

/-! ### The records -/

/-- `persistPendingRepairAttempt` -/
def persistPendingRepairAttempt (attempt : RepairAttempt) : LedgerProg Bool :=
  if attempt.valid host then do
    let serialized := stringify (attemptJson attempt)
    let _written ← (call (.put attempt.pendingKey serialized .absent)).run
    let stored ← (readJson attempt.pendingKey).run
    return stored.join.any fun stored =>
      (readAttempt host stored.value).isSome && stringify stored.value = serialized
  else return false

/-- `resolutionMatchesAttempt` -/
def resolutionMatchesAttempt (resolved attempt : RepairAttempt) : Bool :=
  stringify (attemptJson resolved) = stringify (attemptJson attempt)

/-- `resolveRepairAttempt` -/
def resolveRepairAttempt (attempt : RepairAttempt) (resolution : RepairResolution) :
    LedgerProg Bool :=
  if attempt.valid host then do
    let serialized := stringify (resolutionJson resolution attempt)
    let written ← (call (.put attempt.resolvedKey serialized .absent)).run
    if written = some true then return true
    else
      let existing ← (readJson attempt.resolvedKey).run
      return existing.join.any fun existing =>
        (readResolution host existing.value).any (fun found =>
          resolutionMatchesAttempt found.2 attempt) && stringify existing.value = serialized
  else return false

/-- `readRepairAttemptResolution` -/
def readRepairAttemptResolution (ingressId attemptId commandFingerprint : String) :
    Throwing (Option RepairResolution) := do
  let stored ← readJson (resolvedRepairAttemptKey ingressId attemptId)
  return (stored.bind fun stored => readResolution host stored.value).bind fun found =>
    if found.2.ingressId = ingressId ∧ found.2.attemptId = attemptId ∧
        found.2.commandFingerprint = commandFingerprint then some found.1
    else none

/-! ### The clean-up -/

/-- The counts are integers, and as many as there are objects. -/
def CleanupCounts.accountFor (counts : CleanupCounts) (objects : List DerivedObject) : Bool :=
  match counts.queued.safeInteger, counts.retained.safeInteger, counts.absent.safeInteger with
  | some queued, some retained, some absent =>
      decide (0 ≤ queued) && decide (0 ≤ retained) && decide (0 ≤ absent) &&
        decide (queued + retained + absent = objects.length)
  | _, _, _ => false

/-- The request for the clean-up of an attempt. -/
def RepairAttempt.cleanupRequest (attempt : RepairAttempt) : CleanupProofRequest :=
  ⟨attempt.ingressId, attempt.attemptId, attempt.proof.objects⟩

/-- `enqueueDiscardedAttemptCleanup` -/
def enqueueDiscardedAttemptCleanup (attempt : RepairAttempt) : Throwing Bool :=
  if attempt.proof.objects = [] then return true
  else do
    let counts ← call (.enqueue attempt.mailboxId attempt.cleanupRequest)
    return counts.accountFor attempt.proof.objects

/-! ### A run -/

/-- `INBOUND_REPAIR_ATTEMPT_GRACE_MS` -/
def repairAttemptGraceMs : ℤ := 5 * 60 * 1000

/-- A call of `resolveRepairAttempt`; that it has answered yes is noted. -/
def resolveAttempt (attempt : RepairAttempt) (resolution : RepairResolution) : LedgerProg Bool := do
  let durable ← resolveRepairAttempt host attempt resolution
  if durable then
    let _noted ← Prog.ask (.note (.resolved attempt resolution))
    return true
  else return false

/-- The pending record is deleted, of a discarded attempt after its clean-up. The answer is whether
it was. -/
def finishAttempt (key : String) (attempt : RepairAttempt) (resolution : RepairResolution) :
    Throwing Bool :=
  match resolution with
  | .owned => do
      call (.delete key)
      return true
  | .discarded => do
      let cleaned ← enqueueDiscardedAttemptCleanup attempt
      if cleaned then
        call (.delete key)
        return true
      else return false

/-- The resolution of the mailbox is recorded, and the attempt finished. -/
def resolveAndFinish (key : String) (attempt : RepairAttempt) (resolution : RepairResolution) :
    Throwing Bool := do
  let durable ← OptionT.lift (resolveAttempt host attempt resolution)
  if durable then finishAttempt key attempt resolution
  else return false

/-- The resolution that is stored for an attempt. -/
def storedResolution (attempt : RepairAttempt) (existing : Option StoredJson) :
    Option RepairResolution :=
  ((existing.bind fun existing => readResolution host existing.value).filter fun found =>
    resolutionMatchesAttempt found.2 attempt).map Prod.fst

/-- An attempt, once its pending record is read. -/
def processAttempt (key : String) (attempt : RepairAttempt) : Throwing Bool := do
  let existing ← readJson attempt.resolvedKey
  match storedResolution host attempt existing with
  | some resolution => finishAttempt key attempt resolution
  | none => do
      let now ← call .now
      if (host.dateParse attempt.createdAt).any fun createdAt =>
          now - createdAt < repairAttemptGraceMs then return false
      else
        match ← call (.finalize attempt) with
        | .committed => resolveAndFinish host key attempt .owned
        | .abandoned => resolveAndFinish host key attempt .discarded
        | .rejected => resolveAndFinish host key attempt .discarded
        | .other => return false

/-- One key of the page, with whether its record was deleted. Only the log entry of a failure
throws. -/
def reconcileAttempt (key : String) : Throwing Bool := do
  let pending ← OptionT.lift (readJson key).run
  match pending.join.bind fun pending => readAttempt host pending.value with
  | none => return false
  | some attempt =>
      if key ≠ attempt.pendingKey then return false
      else
        match ← OptionT.lift (processAttempt host key attempt).run with
        | some resolved => return resolved
        | none => do
            call .logRefs
            return false

/-- The keys of a page, with how many records were deleted. -/
def reconcileAttempts : List String → Throwing ℕ
  | [] => return 0
  | key :: keys => do
      let resolved ← reconcileAttempt host key
      let others ← reconcileAttempts keys
      return resolved.toNat + others

/-! ### The page -/

def repairPendingPrefix : String := "system/derived-content-repair-attempts/pending/"

def repairCursorKey : String := "system/derived-content-repair-attempts/cursor.json"

/-- The cursor, of what is stored. -/
def cursorOf (stored : Option StoredJson) : Option String :=
  (stored.bind fun stored => stored.value.stringAt "cursor").filter fun cursor => cursor ≠ ""

/-- The cursor is written if it is as it was read. -/
def cursorCondition (stored : Option StoredJson) : R2Condition :=
  match stored with
  | some stored => .unchanged stored.etag
  | none => .absent

def cursorJson (cursor : Option String) (updatedAt : String) : Json :=
  .obj [("cursor", ofNullable cursor), ("updatedAt", .str updatedAt)]

/-- A page that is truncated has a cursor. -/
def Page.valid {α : Type} (page : Page α) : Bool :=
  !page.truncated || page.cursor.any fun cursor => cursor ≠ ""

def Page.next {α : Type} (page : Page α) : Option String :=
  if page.truncated then page.cursor else none

/-- What a run reports. -/
structure RepairRun where
  scanned : ℕ
  resolved : ℕ

/-- `reconcilePendingInboundRepairAttempts` -/
def reconcilePendingInboundRepairAttempts : Throwing RepairRun := do
  let cursorState ← readJson repairCursorKey
  let page ← call (.list repairPendingPrefix (cursorOf cursorState))
  let resolved ← reconcileAttempts host page.objects
  throwUnless page.valid
  let now ← call .now
  let updatedAt ← orThrow (toISOString now)
  let _written ← call (.put repairCursorKey (stringify (cursorJson page.next updatedAt))
    (cursorCondition cursorState))
  return ⟨page.objects.length, resolved⟩

end MailPortal.Derived
