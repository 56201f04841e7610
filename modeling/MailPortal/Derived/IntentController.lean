import MailPortal.Derived.Ledger

/-!
# The Preflight Controller

Whoever runs a projection attempt holds its intent through a controller: it renews the lease, and
ends the intent as `command_ready`, `projection_resolved` or `abandoned`. Every change is a
compare-and-set on the text that was read, and is accepted only when an exact reread confirms it,
since a write that has failed may have been applied.

Main definitions:

* `persistInboundCleanupIntent`, `transitionInboundCleanupIntent` : the creation, and a change.
* `runController` : the methods of a controller, one after the other.
-/

namespace MailPortal.Derived

open Concurrent Json

variable (host : HostRuntime)

def intentText (intent : CleanupIntent) : String := stringify (intentJson intent)

/-- The stored value is an intent with this text. -/
def isStoredIntent (stored : Option StoredJson) (text : String) : Bool :=
  stored.any fun stored =>
    (readIntent host stored.value).isSome && decide (stringify stored.value = text)

/-- `persistInboundCleanupIntent` -/
def persistInboundCleanupIntent (intent : CleanupIntent) : LedgerProg Bool :=
  if intent.valid host then do
    let _written ← (call (.put intent.key (intentText intent) .absent)).run
    let stored ← (readJson intent.key).run
    return isStoredIntent host stored.join (intentText intent)
  else return false

/-- An intent, with the value that its members are read from. -/
structure IntentValue where
  intent : CleanupIntent
  value : Json

def IntentValue.ofIntent (intent : CleanupIntent) : IntentValue := ⟨intent, intentJson intent⟩

/-- `transitionInboundCleanupIntent` -/
def transitionInboundCleanupIntent (current : IntentValue)
    (transition : CleanupIntent → Throwing CleanupIntent) : Throwing IntentValue := do
  let stored ← orThrow ((← readJson current.intent.key).filter fun stored =>
    isStoredIntent host (some stored) (stringify current.value))
  let next ← transition current.intent
  throwUnless (next.valid host && decide (next.revision = current.intent.revision + 1))
  let _written ← OptionT.lift
    (call (.put current.intent.key (intentText next) (.unchanged stored.etag))).run
  let confirmed ← readJson current.intent.key
  throwUnless (isStoredIntent host confirmed (intentText next))
  return .ofIntent next

/-! ### The methods -/

/-- A call of a method of the controller. -/
inductive ControllerCall
  | renew
  | assertActive
  | activateCommand (commandFingerprint : String)
  | resolveProjection
  | abandon
  deriving DecidableEq

/-- The lease, of a date that was parsed, has not expired. -/
def leaseHolds (leaseUntil : String) (now : ℤ) : Bool :=
  !(host.dateParse leaseUntil).any fun deadline => deadline < now

/-- The tests before a change of a `building` intent. -/
def assertWritable (intent : CleanupIntent) : Throwing Unit := do
  throwUnless (decide (intent.status = .building))
  let now ← call .now
  throwUnless (leaseHolds host intent.leaseUntil now)

def renewed (intent : CleanupIntent) : Throwing CleanupIntent := do
  let now ← call .now
  let leaseUntil ← orThrow (leaseAfter now)
  return { intent with revision := intent.revision + 1, leaseUntil := leaseUntil }

def activated (commandFingerprint : String) (intent : CleanupIntent) : CleanupIntent :=
  { intent with
    status := .commandReady
    revision := intent.revision + 1
    commandFingerprint := some commandFingerprint }

def projectionResolved (intent : CleanupIntent) : CleanupIntent :=
  { intent with status := .projectionResolved, revision := intent.revision + 1 }

def abandonedAtTime (abandonedAt : String) (intent : CleanupIntent) : CleanupIntent :=
  { intent with
    status := .abandoned
    revision := intent.revision + 1
    abandonedAt := some abandonedAt
    leaseUntil := abandonedAt }

/-- A method has returned normally. -/
def settledAs (state : IntentValue) : Throwing IntentValue := do
  call (.note (.settled state.intent.key state.intent.status))
  return state

/-- `assertActive` takes the stored intent over. -/
def activeIntent (state : IntentValue) (stored : Option StoredJson) : Option IntentValue := do
  let stored ← stored
  let intent ← readIntent host stored.value
  guard (intent.status = .building ∧ intent.fenceToken = state.intent.fenceToken)
  return ⟨intent, stored.value⟩

/-- A method of the controller, with the state that it leaves. -/
def ControllerCall.method (state : IntentValue) : ControllerCall → Throwing IntentValue
  | .renew => do
      assertWritable host state.intent
      transitionInboundCleanupIntent host state renewed
  | .assertActive => do
      let next ← orThrow (activeIntent host state (← readJson state.intent.key))
      let now ← call .now
      throwUnless (leaseHolds host next.intent.leaseUntil now)
      return next
  | .activateCommand commandFingerprint => do
      assertWritable host state.intent
      let next ← transitionInboundCleanupIntent host state fun current =>
        return activated commandFingerprint current
      settledAs next
  | .resolveProjection => do
      assertWritable host state.intent
      let next ← transitionInboundCleanupIntent host state fun current =>
        return projectionResolved current
      settledAs next
  | .abandon =>
      if state.intent.status = .building then do
        let now ← call .now
        let abandonedAt ← orThrow (toISOString now)
        transitionInboundCleanupIntent host state fun current =>
          return abandonedAtTime abandonedAt current
      else return state

/-- The calls of a controller run one after the other. One that throws leaves the state. -/
def runController (state : IntentValue) : List ControllerCall → LedgerProg Unit
  | [] => pure ()
  | method :: methods => do
      let next ← (method.method host state).run
      runController (next.getD state) methods

end MailPortal.Derived
