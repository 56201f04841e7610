import MailPortal.Derived.RepairAttempt

/-!
# Cleanup Intents

Before a projection attempt writes its first object, it leaves an intent to clean up after it. The
intent is `building` while the attempt works, and then one of three: the attempt has handed its
objects to a repair command, its projection is resolved, or it is abandoned. The record is a JSON
text in a bucket, and whoever reads it looks at every member before trusting it.

Main results:

* `readIntent_intentJson`, `plain_intentJson` : a valid record reads back as it was.
-/

namespace MailPortal.Derived

open Json

/-- How far an intent is. -/
inductive IntentStatus
  | abandoned
  | building
  | commandReady
  | projectionResolved
  deriving DecidableEq

def IntentStatus.text : IntentStatus → String
  | .abandoned => "abandoned"
  | .building => "building"
  | .commandReady => "command_ready"
  | .projectionResolved => "projection_resolved"

/-- `InboundDerivedContentCleanupIntent`, without its constant members. -/
structure CleanupIntent where
  status : IntentStatus
  emailId : String
  mailboxId : String
  projectionAttemptId : String
  revision : ℤ
  fenceToken : String
  leaseUntil : String
  commandFingerprint : Option String
  abandonedAt : Option String
  emptyObservedAt : Option String
  emptyObservations : ℤ
  createdAt : String
deriving DecidableEq

/-- `INBOUND_CLEANUP_INTENT_GRACE_MS` -/
def cleanupIntentGraceMs : ℤ := 20 * 60000

def intentPendingPrefix : String := "system/derived-content-cleanup-intents/pending/"

/-- `inboundCleanupIntentKey` -/
def inboundCleanupIntentKey (emailId projectionAttemptId : String) : String :=
  intentPendingPrefix ++ attemptPath emailId projectionAttemptId

def CleanupIntent.key (intent : CleanupIntent) : String :=
  inboundCleanupIntentKey intent.emailId intent.projectionAttemptId

/-! ### New intents -/

/-- The key that `createInboundCleanupIntent` validates the identifiers with. -/
def sampleBodyKey (emailId projectionAttemptId : String) : String :=
  bodyPrefixOf emailId projectionAttemptId ++ "0.body"

/-- `!mailboxId || mailboxId.length > 320` fails. -/
def isIntentMailbox (mailboxId : String) : Bool :=
  decide (mailboxId ≠ "") && decide (codeUnits mailboxId ≤ 320)

/-- The end of a lease that begins at a time. -/
def leaseAfter (ms : ℤ) : Option String := toISOString (ms + cleanupIntentGraceMs)

/-- `createInboundCleanupIntent`, which throws where this is `none`. -/
def createInboundCleanupIntent (host : HostRuntime)
    (emailId mailboxId projectionAttemptId createdAt fenceToken : String) :
    Option CleanupIntent := do
  guard (validCleanupRequest emailId projectionAttemptId
    [sampleBodyKey emailId projectionAttemptId])
  guard (isIntentMailbox mailboxId)
  let leaseUntil ← (host.dateParse createdAt).bind leaseAfter
  return ⟨.building, emailId, mailboxId, projectionAttemptId, 0, fenceToken, leaseUntil, none, none,
    none, 0, createdAt⟩

/-! ### Valid intents -/

/-- `/^[0-9a-f-]{36}$/i` -/
def isFenceToken (s : String) : Bool := hasOnly (fun c => isHex c || c = '-') 36 36 s.toList

/-- The date is null, or can be parsed. -/
def isNullableDate (host : HostRuntime) (date : Option String) : Bool :=
  date.all fun s => (host.dateParse s).isSome

def CleanupIntent.hasNoAbandonmentMetadata (intent : CleanupIntent) : Bool :=
  decide (intent.abandonedAt = none) && decide (intent.emptyObservedAt = none) &&
    decide (intent.emptyObservations = 0)

/-- What the status asks of the other members. -/
def CleanupIntent.statusFits (intent : CleanupIntent) : Bool :=
  match intent.status with
  | .building => decide (intent.commandFingerprint = none) && intent.hasNoAbandonmentMetadata
  | .commandReady => decide (1 ≤ intent.revision) &&
      decide (intent.commandFingerprint ≠ none) && intent.hasNoAbandonmentMetadata
  | .projectionResolved => decide (1 ≤ intent.revision) &&
      decide (intent.commandFingerprint = none) && intent.hasNoAbandonmentMetadata
  | .abandoned => decide (1 ≤ intent.revision) &&
      decide (intent.commandFingerprint = none) && decide (intent.abandonedAt ≠ none) &&
      (decide (intent.emptyObservations = 0) && decide (intent.emptyObservedAt = none) ||
        decide (0 < intent.emptyObservations) && decide (intent.emptyObservedAt ≠ none))

/-- The members of an intent are what they should be. -/
def CleanupIntent.valid (host : HostRuntime) (intent : CleanupIntent) : Bool :=
  isIntentMailbox intent.mailboxId && isSafe intent.revision && decide (0 ≤ intent.revision) &&
    isFenceToken intent.fenceToken && (host.dateParse intent.leaseUntil).isSome &&
    intent.commandFingerprint.all isFingerprint && isNullableDate host intent.abandonedAt &&
    isNullableDate host intent.emptyObservedAt && isSafe intent.emptyObservations &&
    decide (0 ≤ intent.emptyObservations) && decide (intent.emptyObservations ≤ 2) &&
    (host.dateParse intent.createdAt).isSome &&
    (createInboundCleanupIntent host intent.emailId intent.mailboxId intent.projectionAttemptId
      intent.createdAt intent.fenceToken).isSome &&
    intent.statusFits

/-! ### Intents as JSON -/

/-- `projectInboundCleanupIntent` -/
def intentJson (intent : CleanupIntent) : Json :=
  .obj [("schemaVersion", ofInt 1), ("kind", .str "inbound_derived_content_cleanup_intent"),
    ("status", .str intent.status.text), ("emailId", .str intent.emailId),
    ("mailboxId", .str intent.mailboxId), ("projectionAttemptId", .str intent.projectionAttemptId),
    ("revision", ofInt intent.revision), ("fenceToken", .str intent.fenceToken),
    ("leaseUntil", .str intent.leaseUntil),
    ("commandFingerprint", ofNullable intent.commandFingerprint),
    ("abandonedAt", ofNullable intent.abandonedAt),
    ("emptyObservedAt", ofNullable intent.emptyObservedAt),
    ("emptyObservations", ofInt intent.emptyObservations), ("createdAt", .str intent.createdAt)]

def intentStatusOf (s : String) : Option IntentStatus :=
  if s = "abandoned" then some .abandoned
  else if s = "building" then some .building
  else if s = "command_ready" then some .commandReady
  else if s = "projection_resolved" then some .projectionResolved
  else none

/-- The members of an intent, with their types. -/
def intentOf (v : Json) : Option CleanupIntent := do
  guard (v.hasExactKeys ["abandonedAt", "commandFingerprint", "createdAt", "emailId",
    "emptyObservations", "emptyObservedAt", "fenceToken", "kind", "leaseUntil", "mailboxId",
    "projectionAttemptId", "revision", "schemaVersion", "status"])
  guard (v.integerAt "schemaVersion" = some 1)
  guard (v.stringAt "kind" = some "inbound_derived_content_cleanup_intent")
  let status ← (v.stringAt "status").bind intentStatusOf
  let emailId ← v.stringAt "emailId"
  let mailboxId ← v.stringAt "mailboxId"
  let projectionAttemptId ← v.stringAt "projectionAttemptId"
  let revision ← v.integerAt "revision"
  let fenceToken ← v.stringAt "fenceToken"
  let leaseUntil ← v.stringAt "leaseUntil"
  let commandFingerprint ← v.nullableStringAt "commandFingerprint"
  let abandonedAt ← v.nullableStringAt "abandonedAt"
  let emptyObservedAt ← v.nullableStringAt "emptyObservedAt"
  let emptyObservations ← v.integerAt "emptyObservations"
  let createdAt ← v.stringAt "createdAt"
  return ⟨status, emailId, mailboxId, projectionAttemptId, revision, fenceToken, leaseUntil,
    commandFingerprint, abandonedAt, emptyObservedAt, emptyObservations, createdAt⟩

/-- `isInboundCleanupIntent`, with the intent. -/
def readIntent (host : HostRuntime) (v : Json) : Option CleanupIntent :=
  (intentOf v).filter fun intent => intent.valid host

/-! ### Reading back -/

variable {host : HostRuntime} {intent : CleanupIntent}

section

variable (h : intent.valid host = true)
include h

theorem safe_of_validIntent :
    isSafe intent.revision = true ∧ isSafe intent.emptyObservations = true := by
  simp only [CleanupIntent.valid, Bool.and_eq_true] at h
  exact ⟨h.1.1.1.1.1.1.1.1.1.1.1.1.2, h.1.1.1.1.1.2⟩

theorem readIntent_intentJson : readIntent host (intentJson intent) = some intent := by
  have hkeys : (intentJson intent).hasExactKeys ["abandonedAt", "commandFingerprint", "createdAt",
      "emailId", "emptyObservations", "emptyObservedAt", "fenceToken", "kind", "leaseUntil",
      "mailboxId", "projectionAttemptId", "revision", "schemaVersion", "status"] = true := rfl
  have hversion : (intentJson intent).integerAt "schemaVersion" = some 1 := rfl
  have hstatus : ((intentJson intent).stringAt "status").bind intentStatusOf =
      some intent.status := by
    rcases intent with ⟨status, -, -, -, -, -, -, -, -, -, -, -⟩
    cases status <;> rfl
  have hrevision : (intentJson intent).integerAt "revision" = some intent.revision :=
    asSafeInteger_ofInt (safe_of_validIntent h).1
  have hobservations : (intentJson intent).integerAt "emptyObservations" =
      some intent.emptyObservations := asSafeInteger_ofInt (safe_of_validIntent h).2
  have hfingerprint : (intentJson intent).nullableStringAt "commandFingerprint" =
      some intent.commandFingerprint := asNullableString_ofNullable _
  have habandoned : (intentJson intent).nullableStringAt "abandonedAt" = some intent.abandonedAt :=
    asNullableString_ofNullable _
  have hobserved : (intentJson intent).nullableStringAt "emptyObservedAt" =
      some intent.emptyObservedAt := asNullableString_ofNullable _
  have hintent : intentOf (intentJson intent) = some intent := by
    simp only [intentOf, hkeys, hversion, hstatus, hrevision, hobservations, hfingerprint,
      habandoned, hobserved]
    rfl
  rw [readIntent, hintent, Option.filter_some, if_pos h]

theorem plain_intentJson : (intentJson intent).Plain := by
  refine plain_obj (by simp) fun m hm => ?_
  simp only [List.mem_cons, List.not_mem_nil, or_false] at hm
  rcases hm with rfl | rfl | rfl | rfl | rfl | rfl | rfl | rfl | rfl | rfl | rfl | rfl | rfl | rfl
  · exact plain_ofInt rfl
  · exact plain_str _
  · exact plain_str _
  · exact plain_str _
  · exact plain_str _
  · exact plain_str _
  · exact plain_ofInt (safe_of_validIntent h).1
  · exact plain_str _
  · exact plain_str _
  · exact plain_ofNullable _
  · exact plain_ofNullable _
  · exact plain_ofNullable _
  · exact plain_ofInt (safe_of_validIntent h).2
  · exact plain_str _

end

end MailPortal.Derived
