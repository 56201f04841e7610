import MailPortal.Derived.Objects

/-!
# Manifests

A mailbox tells which derived objects of a mail it owns. Its answer is projected: any member that is
not as it should be makes it no manifest at all.
-/

namespace MailPortal.Derived

open Json

/-- `MAX_INBOUND_DERIVED_MANIFEST_OBJECTS` -/
def maxManifestObjects : ℕ := 512

/-- `MAX_INBOUND_DERIVED_KEY_LENGTH` -/
def maxDerivedKeyLength : ℕ := 1024

/-- `MAX_INBOUND_DERIVED_GENERATION` -/
def maxDerivedGeneration : ℤ := 1000000

/-- `MAX_INBOUND_EMAIL_BYTES` -/
def maxInboundEmailBytes : ℤ := 25 * 1024 * 1024

/-- An object under its identifier. -/
structure ManifestObject where
  id : String
  object : DerivedObject
deriving DecidableEq

/-- `InboundDerivedContentManifest` -/
inductive Manifest
  /-- The mail is deleted, missing, or not live. -/
  | gone (status : String)
  | liveInbound (generation : ℤ) (lastRepairMarkerId : Option String)
      (attachments bodyObjects : List ManifestObject)
  deriving DecidableEq

def startsWith (s start : String) : Bool := start.toList.isPrefixOf s.toList

/-- An item of a manifest. -/
def manifestObjectOf (namespaceKey : String) (v : Json) : Option ManifestObject := do
  guard (v.hasExactKeys ["byteLength", "id", "r2Key"])
  let id ← v.stringAt "id"
  guard (isEmailId id)
  let r2Key ← v.stringAt "r2Key"
  guard (startsWith r2Key namespaceKey && decide (codeUnits r2Key ≤ maxDerivedKeyLength))
  let byteLength ← v.integerAt "byteLength"
  guard (0 ≤ byteLength ∧ byteLength ≤ maxInboundEmailBytes)
  return ⟨id, r2Key, byteLength⟩

def ManifestObject.key (item : ManifestObject) : String := item.object.r2Key

/-- `projectManifestObjects` -/
def projectManifestObjects (v : Json) (namespaceKey : String) : Option (List ManifestObject) := do
  let items ← v.asItems
  guard (items.length ≤ maxManifestObjects)
  let objects ← items.mapM (manifestObjectOf namespaceKey)
  guard (objects.map ManifestObject.key).Nodup
  return objects

/-- The marker is null, or named as markers are. -/
def isMarker (marker : Option String) : Bool :=
  marker.all fun s => hasOnly isWordChar 8 100 s.toList

def liveManifestOf (v : Json) (expectedEmailId : String) : Option Manifest := do
  guard (v.hasExactKeys ["attachments", "bodyObjects", "generation", "lastRepairMarkerId",
    "status"])
  let generation ← v.integerAt "generation"
  guard (1 ≤ generation ∧ generation ≤ maxDerivedGeneration)
  let lastRepairMarkerId ← v.nullableStringAt "lastRepairMarkerId"
  guard (isMarker lastRepairMarkerId)
  let attachments ← (v.get? "attachments").bind fun items =>
    projectManifestObjects items ("attachments/" ++ expectedEmailId ++ "/")
  let bodyObjects ← (v.get? "bodyObjects").bind fun items =>
    projectManifestObjects items ("email-bodies/" ++ expectedEmailId ++ "/")
  let objects := attachments ++ bodyObjects
  guard (objects.length ≤ maxManifestObjects)
  guard (objects.map ManifestObject.id).Nodup
  guard (objects.map ManifestObject.key).Nodup
  return .liveInbound generation lastRepairMarkerId attachments bodyObjects

/-- `projectInboundDerivedContentManifest` -/
def projectInboundDerivedContentManifest (v : Json) (expectedEmailId : String) :
    Option Manifest := do
  guard (isEmailId expectedEmailId)
  let status ← v.stringAt "status"
  if status ∈ ["deleted", "missing", "not_live_inbound"] then
    if v.hasExactKeys ["status"] then return .gone status else none
  else
    guard (status = "live_inbound")
    liveManifestOf v expectedEmailId

/-- The objects that are committed, `manifestProof`. -/
def Manifest.committed : Manifest → List DerivedObject
  | .gone _ => []
  | .liveInbound _ _ attachments bodyObjects =>
      (attachments ++ bodyObjects).map ManifestObject.object

end MailPortal.Derived
