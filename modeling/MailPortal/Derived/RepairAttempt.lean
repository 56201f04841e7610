import MailPortal.Derived.Objects

/-!
# Repair Attempts

A repair of the derived objects of a mail is recorded before it is handed to the mailbox, and its
end is recorded once: the objects are owned, or discarded. Both records are JSON texts in a bucket,
and whoever reads one back looks at every member before it trusts the record.

Main results:

* `readAttempt_attemptJson`, `readResolution_resolutionJson` : a valid record reads back as it was.
-/

namespace MailPortal.Derived

open Json

variable {object : DerivedObject}

/-- `InboundDerivedContentProof` -/
structure DerivedContentProof where
  attachments : List DerivedObject
  bodyObjects : List DerivedObject
deriving DecidableEq

variable {proof : DerivedContentProof}

def DerivedContentProof.objects (proof : DerivedContentProof) : List DerivedObject :=
  proof.attachments ++ proof.bodyObjects

/-- `InboundDerivedContentRepairAttempt`, without its constant members. -/
structure RepairAttempt where
  attemptId : String
  ingressId : String
  mailboxId : String
  expectedGeneration : ℤ
  markerId : String
  commandFingerprint : String
  createdAt : String
  proof : DerivedContentProof
deriving DecidableEq

/-- How an attempt ends. -/
inductive RepairResolution
  | discarded
  | owned
  deriving DecidableEq

def RepairResolution.text : RepairResolution → String
  | .discarded => "discarded"
  | .owned => "owned"

/-! ### Keys -/

/-- The characters that `encodeURIComponent` leaves alone. -/
def isUnreserved (c : Char) : Bool :=
  c.isAlphanum || c ∈ ['-', '_', '.', '!', '~', '*', '\'', '(', ')']

def upperHex (n : ℕ) : Char := if n < 10 then Char.ofNat (0x30 + n) else Char.ofNat (0x37 + n)

/-- `encodeURIComponent` -/
def encodeURIComponent (s : String) : String :=
  String.ofList (s.toList.flatMap fun c =>
    if isUnreserved c then [c]
    else (String.utf8EncodeChar c).flatMap fun byte =>
      ['%', upperHex (byte.toNat / 16), upperHex (byte.toNat % 16)])

/-- The part of a key that names an attempt. -/
def attemptPath (ingressId attemptId : String) : String :=
  encodeURIComponent ingressId ++ "/" ++ attemptId ++ ".json"

def pendingRepairAttemptKey (ingressId attemptId : String) : String :=
  "system/derived-content-repair-attempts/pending/" ++ attemptPath ingressId attemptId

def resolvedRepairAttemptKey (ingressId attemptId : String) : String :=
  "system/derived-content-repair-attempts/resolved/" ++ attemptPath ingressId attemptId

def RepairAttempt.pendingKey (attempt : RepairAttempt) : String :=
  pendingRepairAttemptKey attempt.ingressId attempt.attemptId

def RepairAttempt.resolvedKey (attempt : RepairAttempt) : String :=
  resolvedRepairAttemptKey attempt.ingressId attempt.attemptId

/-! ### Records as JSON -/

def objectJson (object : DerivedObject) : Json :=
  .obj [("r2Key", .str object.r2Key), ("byteLength", ofInt object.byteLength)]

def proofJson (proof : DerivedContentProof) : Json :=
  .obj [("attachments", .arr (proof.attachments.map objectJson)),
    ("bodyObjects", .arr (proof.bodyObjects.map objectJson))]

/-- `projectRepairAttempt` -/
def attemptJson (attempt : RepairAttempt) : Json :=
  .obj [("schemaVersion", ofInt 1), ("kind", .str "inbound_derived_content_repair_attempt"),
    ("status", .str "pending"), ("attemptId", .str attempt.attemptId),
    ("ingressId", .str attempt.ingressId), ("mailboxId", .str attempt.mailboxId),
    ("expectedGeneration", ofInt attempt.expectedGeneration), ("markerId", .str attempt.markerId),
    ("commandFingerprint", .str attempt.commandFingerprint), ("createdAt", .str attempt.createdAt),
    ("proof", proofJson attempt.proof)]

/-- `projectRepairResolution` -/
def resolutionJson (resolution : RepairResolution) (attempt : RepairAttempt) : Json :=
  .obj [("schemaVersion", ofInt 1), ("kind", .str "inbound_derived_content_repair_resolution"),
    ("status", .str "resolved"), ("resolution", .str resolution.text),
    ("attempt", attemptJson attempt)]

/-! ### The readers -/

/-- An entry of a proof. -/
def objectOf (v : Json) : Option DerivedObject := do
  guard (v.hasExactKeys ["byteLength", "r2Key"])
  let r2Key ← v.stringAt "r2Key"
  let byteLength ← v.integerAt "byteLength"
  guard (0 ≤ byteLength)
  return ⟨r2Key, byteLength⟩

/-- `isProofShape`, with the proof. -/
def proofOf (v : Json) : Option DerivedContentProof := do
  guard (v.hasExactKeys ["attachments", "bodyObjects"])
  let attachments ← (← v.itemsAt "attachments").mapM objectOf
  let bodyObjects ← (← v.itemsAt "bodyObjects").mapM objectOf
  return ⟨attachments, bodyObjects⟩

/-- The members of an attempt, with their types. -/
def attemptOf (v : Json) : Option RepairAttempt := do
  guard (v.hasExactKeys ["attemptId", "commandFingerprint", "createdAt", "expectedGeneration",
    "ingressId", "kind", "mailboxId", "markerId", "proof", "schemaVersion", "status"])
  guard (v.integerAt "schemaVersion" = some 1)
  guard (v.stringAt "kind" = some "inbound_derived_content_repair_attempt")
  guard (v.stringAt "status" = some "pending")
  let attemptId ← v.stringAt "attemptId"
  let ingressId ← v.stringAt "ingressId"
  let mailboxId ← v.stringAt "mailboxId"
  let expectedGeneration ← v.integerAt "expectedGeneration"
  let markerId ← v.stringAt "markerId"
  let commandFingerprint ← v.stringAt "commandFingerprint"
  let createdAt ← v.stringAt "createdAt"
  let proof ← (v.get? "proof").bind proofOf
  return ⟨attemptId, ingressId, mailboxId, expectedGeneration, markerId, commandFingerprint,
    createdAt, proof⟩

/-- `MAX_ATTEMPT_OBJECTS` -/
def maxAttemptObjects : ℕ := 512

/-- The members of an attempt are what they should be. -/
def RepairAttempt.valid (host : HostRuntime) (attempt : RepairAttempt) : Bool :=
  decide (attempt.mailboxId ≠ "") && isSafe attempt.expectedGeneration &&
    decide (1 ≤ attempt.expectedGeneration) && hasOnly isWordChar 8 100 attempt.markerId.toList &&
    isFingerprint attempt.commandFingerprint && (host.dateParse attempt.createdAt).isSome &&
    decide (attempt.proof.attachments.length + attempt.proof.bodyObjects.length ≤
      maxAttemptObjects) &&
    isProjectionAttemptId attempt.attemptId && isEmailId attempt.ingressId &&
    (decide (attempt.proof.objects = []) ||
      validCleanupProof ⟨attempt.ingressId, attempt.attemptId, attempt.proof.objects⟩ &&
        attempt.proof.attachments.all (fun object =>
          (attachmentPrefixOf attempt.ingressId attempt.attemptId).toList.isPrefixOf
            object.r2Key.toList) &&
        attempt.proof.bodyObjects.all fun object =>
          (bodyPrefixOf attempt.ingressId attempt.attemptId).toList.isPrefixOf object.r2Key.toList)

/-- `isInboundDerivedContentRepairAttempt`, with the attempt. -/
def readAttempt (host : HostRuntime) (v : Json) : Option RepairAttempt :=
  (attemptOf v).filter fun attempt => attempt.valid host

def resolutionText (s : String) : Option RepairResolution :=
  if s = "owned" then some .owned else if s = "discarded" then some .discarded else none

/-- `isRepairResolution`, with the resolution and its attempt. -/
def readResolution (host : HostRuntime) (v : Json) : Option (RepairResolution × RepairAttempt) := do
  guard (v.hasExactKeys ["attempt", "kind", "resolution", "schemaVersion", "status"])
  guard (v.integerAt "schemaVersion" = some 1)
  guard (v.stringAt "kind" = some "inbound_derived_content_repair_resolution")
  guard (v.stringAt "status" = some "resolved")
  let resolution ← (v.stringAt "resolution").bind resolutionText
  let attempt ← (v.get? "attempt").bind (readAttempt host)
  return (resolution, attempt)

/-! ### Reading back -/

variable {host : HostRuntime} {attempt : RepairAttempt}

/-- The lengths of the objects are numbers that read back. -/
def DerivedObject.Safe (object : DerivedObject) : Prop :=
  isSafe object.byteLength = true ∧ 0 ≤ object.byteLength

theorem objectOf_objectJson (h : object.Safe) : objectOf (objectJson object) = some object := by
  have hlength : (objectJson object).integerAt "byteLength" = some object.byteLength :=
    asSafeInteger_ofInt h.1
  have hkey : (objectJson object).stringAt "r2Key" = some object.r2Key := rfl
  have hkeys : (objectJson object).hasExactKeys ["byteLength", "r2Key"] = true := rfl
  simp [objectOf, hlength, hkey, hkeys, h.2]

theorem mapM_objectOf {objects : List DerivedObject} (h : ∀ object ∈ objects, object.Safe) :
    (objects.map objectJson).mapM objectOf = some objects := by
  induction objects with
  | nil => rfl
  | cons object objects ih =>
      rw [List.map_cons, List.mapM_cons, objectOf_objectJson (h object List.mem_cons_self),
        ih fun other hother => h other (List.mem_cons_of_mem object hother)]
      rfl

theorem proofOf_proofJson (h : ∀ object ∈ proof.objects, object.Safe) :
    proofOf (proofJson proof) = some proof := by
  have hattachments : (proofJson proof).itemsAt "attachments" =
      some (proof.attachments.map objectJson) := rfl
  have hbodies : (proofJson proof).itemsAt "bodyObjects" =
      some (proof.bodyObjects.map objectJson) := rfl
  have hkeys : (proofJson proof).hasExactKeys ["attachments", "bodyObjects"] = true := rfl
  simp only [proofOf, hattachments, hbodies, hkeys]
  simp [mapM_objectOf fun object hobject => h object (List.mem_append_left _ hobject),
    mapM_objectOf fun object hobject => h object (List.mem_append_right _ hobject)]

section

variable (h : attempt.valid host = true)
include h

theorem safe_of_valid : ∀ object ∈ attempt.proof.objects, object.Safe := by
  intro object hobject
  simp only [RepairAttempt.valid, Bool.and_eq_true, Bool.or_eq_true, decide_eq_true_eq] at h
  rcases h.2 with hnone | ⟨⟨hproof, -⟩, -⟩
  · rw [hnone] at hobject
    cases hobject
  · simp only [validCleanupProof, Bool.and_eq_true, List.all_eq_true, decide_eq_true_eq] at hproof
    exact hproof.2 object hobject

theorem safeGeneration_of_valid : isSafe attempt.expectedGeneration = true := by
  simp only [RepairAttempt.valid, Bool.and_eq_true] at h
  exact h.1.1.1.1.1.1.1.1.2

theorem readAttempt_attemptJson : readAttempt host (attemptJson attempt) = some attempt := by
  have hgeneration : (attemptJson attempt).integerAt "expectedGeneration" =
      some attempt.expectedGeneration := asSafeInteger_ofInt (safeGeneration_of_valid h)
  have hproof : ((attemptJson attempt).get? "proof").bind proofOf = some attempt.proof :=
    proofOf_proofJson (safe_of_valid h)
  have hkeys : (attemptJson attempt).hasExactKeys ["attemptId", "commandFingerprint", "createdAt",
      "expectedGeneration", "ingressId", "kind", "mailboxId", "markerId", "proof",
      "schemaVersion", "status"] = true := rfl
  have hversion : (attemptJson attempt).integerAt "schemaVersion" = some 1 := rfl
  have hattempt : attemptOf (attemptJson attempt) = some attempt := by
    simp only [attemptOf, hkeys, hversion, hgeneration, hproof]
    rfl
  rw [readAttempt, hattempt, Option.filter_some, if_pos h]

end

theorem readResolution_resolutionJson (resolution : RepairResolution)
    (h : attempt.valid host = true) :
    readResolution host (resolutionJson resolution attempt) = some (resolution, attempt) := by
  have hkeys : (resolutionJson resolution attempt).hasExactKeys ["attempt", "kind", "resolution",
      "schemaVersion", "status"] = true := rfl
  have hversion : (resolutionJson resolution attempt).integerAt "schemaVersion" = some 1 := rfl
  have hattempt : ((resolutionJson resolution attempt).get? "attempt").bind (readAttempt host) =
      some attempt := readAttempt_attemptJson h
  have hresolution : ((resolutionJson resolution attempt).stringAt "resolution").bind
      resolutionText = some resolution := by
    cases resolution <;> rfl
  simp only [readResolution, hkeys, hversion, hattempt, hresolution]
  rfl

/-! ### Texts -/

theorem plain_objectJson (h : object.Safe) : (objectJson object).Plain := by
  refine plain_obj (by simp) fun m hm => ?_
  rcases List.mem_pair.mp hm with rfl | rfl
  · exact plain_str _
  · exact plain_ofInt h.1

theorem plain_proofJson (h : ∀ object ∈ proof.objects, object.Safe) : (proofJson proof).Plain := by
  have hitems : ∀ objects : List DerivedObject, (∀ object ∈ objects, object.Safe) →
      (Json.arr (objects.map objectJson)).Plain := by
    intro objects hsafe
    refine plain_arr fun v hv => ?_
    obtain ⟨object, hobject, rfl⟩ := List.mem_map.mp hv
    exact plain_objectJson (hsafe object hobject)
  refine plain_obj (by simp) fun m hm => ?_
  rcases List.mem_pair.mp hm with rfl | rfl
  · exact hitems _ fun object hobject => h object (List.mem_append_left _ hobject)
  · exact hitems _ fun object hobject => h object (List.mem_append_right _ hobject)

theorem plain_attemptJson (h : attempt.valid host = true) : (attemptJson attempt).Plain := by
  refine plain_obj (by simp) fun m hm => ?_
  simp only [List.mem_cons, List.not_mem_nil, or_false] at hm
  rcases hm with rfl | rfl | rfl | rfl | rfl | rfl | rfl | rfl | rfl | rfl | rfl
  · exact plain_ofInt rfl
  · exact plain_str _
  · exact plain_str _
  · exact plain_str _
  · exact plain_str _
  · exact plain_str _
  · exact plain_ofInt (safeGeneration_of_valid h)
  · exact plain_str _
  · exact plain_str _
  · exact plain_str _
  · exact plain_proofJson (safe_of_valid h)

theorem plain_resolutionJson (resolution : RepairResolution) (h : attempt.valid host = true) :
    (resolutionJson resolution attempt).Plain := by
  refine plain_obj (by simp) fun m hm => ?_
  simp only [List.mem_cons, List.not_mem_nil, or_false] at hm
  rcases hm with rfl | rfl | rfl | rfl | rfl
  · exact plain_ofInt rfl
  · exact plain_str _
  · exact plain_str _
  · exact plain_str _
  · exact plain_attemptJson h

end MailPortal.Derived
