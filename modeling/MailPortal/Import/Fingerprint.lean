import MailPortal.Lib.Failure
import MailPortal.Lib.HashChain
import MailPortal.Lib.Json
import MailPortal.Platform.JavaScript
import Mathlib.Data.String.Basic

/-!
# The Fingerprint of an Import Promotion

The attachments of an imported message are promoted to permanent storage under a claim. The
objects that are written are recorded one after another, and a rolling fingerprint commits to
them: a SHA-256 over the identity of the claim, and for every object one over the fingerprint so
far and the object. SHA-256 is a parameter `sha256Hex`, of which nothing is assumed.

Main results:

* `advance_ok_iff` : what a fingerprint is, and when it is computed at all.
* `importPromotionFingerprint_append` : the cuts between batches do not matter.
* `fingerprint_binding` : equal fingerprints are of one identity and one list, up to a collision.
-/

namespace MailPortal.Import

open Failure

variable {fingerprint previous : String}

/-! ### Filenames that are safe to store -/

def R2_OBJECT_KEY_MAX_BYTES : ℕ := 1024

def ATTACHMENT_PRESENTATION_FILENAME_CHARACTERS : ℕ := 255

/-- The length of a text in UTF-8. -/
def utf8Bytes (cs : List Char) : ℕ := (cs.map Char.utf8Size).sum

/-- Characters from the front, within a number of characters and of bytes. -/
def takeBoundedCharacters : List Char → ℕ → ℕ → List Char
  | [], _, _ => []
  | c :: cs, maximumCharacters, maximumBytes =>
      if maximumCharacters = 0 then []
      else if maximumBytes < c.utf8Size then []
      else c :: takeBoundedCharacters cs (maximumCharacters - 1) (maximumBytes - c.utf8Size)

/-- `lastIndexOf(".")`, in characters. -/
def lastDot (cs : List Char) : Option ℕ :=
  let after := (cs.reverse.takeWhile fun c => c ≠ '.').length
  if after = cs.length then none else some (cs.length - 1 - after)

/-- `slice(0, dot)`; without a dot the index is -1, which counts from the end. -/
def sliceToDot (value : List Char) : List Char :=
  match lastDot value with
  | some dot => value.take dot
  | none => sliceUnits ((value.flatMap utf16Units).length - 1) value

def boundedFilename (value : List Char) (maximumCharacters maximumBytes : ℕ) : List Char :=
  let dot := (lastDot value).getD 0
  let extension := if 0 < dot then value.drop dot else []
  let preserveExtension := extension.length ≤ 64 ∧ extension.length < maximumCharacters ∧
    utf8Bytes extension < maximumBytes
  let suffix := if preserveExtension then extension else []
  let stem := if preserveExtension then sliceToDot value else value
  takeBoundedCharacters stem (maximumCharacters - suffix.length)
    (maximumBytes - utf8Bytes suffix) ++ suffix

/-- The characters that are replaced in a filename. -/
def unsafeFilenameChar (c : Char) : Bool :=
  c ∈ ['/', '\\', ':', '*', '?', '"', '<', '>', '|'] || decide (c.toNat ≤ 0x1f) ||
    decide (c.toNat = 0x7f)

def untitled : List Char := ['u', 'n', 't', 'i', 't', 'l', 'e', 'd']

def safeAttachmentStorageFilename (value keyPrefix : List Char) : Except String (List Char) :=
  let availableBytes := R2_OBJECT_KEY_MAX_BYTES - utf8Bytes keyPrefix
  if availableBytes = 0 then
    .error "Attachment storage identity exceeds the R2 key limit."
  else
    let named := if value = [] then untitled else value
    let sanitized := named.map fun c => if unsafeFilenameChar c then '_' else c
    let bounded := boundedFilename sanitized ATTACHMENT_PRESENTATION_FILENAME_CHARACTERS
      availableBytes
    let fallback := takeBoundedCharacters untitled 8 availableBytes
    if bounded ≠ [] then .ok bounded
    else if fallback ≠ [] then .ok fallback
    else .error "Attachment filename cannot fit the R2 key limit."

/-! ### Identities and objects -/

def IMPORT_PROMOTION_MAX_BYTES : ℤ := 25 * 1024 * 1024

def IMPORT_PROMOTION_APPEND_LIMIT : ℕ := 20

/-- A message, and the token of its claim. -/
structure ImportPromotionIdentity where
  emailId : String
  claimToken : String
deriving DecidableEq

/-- An object that a promotion stores. -/
structure ImportPromotionObject where
  ordinal : ℤ
  r2Key : String
  byteLength : ℤ
deriving DecidableEq

variable {objects : List ImportPromotionObject}

def lowerHex (c : Char) : Bool := ('0' ≤ c && c ≤ '9') || ('a' ≤ c && c ≤ 'f')

def anyHex (c : Char) : Bool := lowerHex c || ('A' ≤ c && c ≤ 'F')

/-- `/^[0-9a-f]{32}$/` -/
def importId (s : String) : Bool := decide (s.toList.length = 32) && s.toList.all lowerHex

/-- `/^[0-9a-f]{64}$/` -/
def sha256HexPattern (s : String) : Bool := decide (s.toList.length = 64) && s.toList.all lowerHex

/-- What the pattern of a version 4 UUID has at an index. -/
def uuidV4Char (index : ℕ) (c : Char) : Bool :=
  if index ∈ [8, 13, 18, 23] then c = '-'
  else if index = 14 then c = '4'
  else if index = 19 then c ∈ ['8', '9', 'a', 'b', 'A', 'B']
  else anyHex c

/-- `/^[0-9a-f]{8}-[0-9a-f]{4}-4[0-9a-f]{3}-[89ab][0-9a-f]{3}-[0-9a-f]{12}$/i` -/
def uuidV4 (s : String) : Bool :=
  decide (s.toList.length = 36) && (s.toList.zipIdx.all fun c => uuidV4Char c.2 c.1)

def validIdentity (identity : ImportPromotionIdentity) : Bool :=
  importId identity.emailId && uuidV4 identity.claimToken

def requireIdentity (identity : ImportPromotionIdentity) : Except String Unit :=
  require (validIdentity identity) "Import promotion identity is invalid"

def requireFingerprint (value : String) : Except String Unit :=
  require (sha256HexPattern value) "Import promotion rolling fingerprint is invalid"

/-- `Number.isSafeInteger`, of an integer. -/
def isSafeInteger (n : ℤ) : Bool := decide (|n| < 2 ^ 53)

/-- The key that an object must have, up to its filename. -/
def expectedPrefix (identity : ImportPromotionIdentity) (ordinal : ℤ) : String :=
  "attachments/" ++ identity.emailId ++ "/" ++ identity.emailId ++ "-" ++
    String.ofList (identity.claimToken.toList.filter fun c => c ≠ '-') ++ "-" ++
      toString ordinal ++ "/"

def validateImportPromotionObject (identity : ImportPromotionIdentity)
    (object : ImportPromotionObject) : Except String ImportPromotionObject := do
  requireIdentity identity
  require (isSafeInteger object.ordinal && decide (0 ≤ object.ordinal))
    "Import promotion ordinal is invalid"
  require (isSafeInteger object.byteLength && decide (0 ≤ object.byteLength) &&
    decide (object.byteLength ≤ IMPORT_PROMOTION_MAX_BYTES))
    "Import promotion byte length is invalid"
  let keyPrefix := (expectedPrefix identity object.ordinal).toList
  require (keyPrefix.isPrefixOf object.r2Key.toList)
    "Import promotion key is outside its claim namespace"
  let filename := object.r2Key.toList.drop keyPrefix.length
  require (decide (filename ≠ []) && decide ('/' ∉ filename))
    "Import promotion filename is not storage-safe"
  let safe ← safeAttachmentStorageFilename filename keyPrefix
  require (decide (safe = filename)) "Import promotion filename is not storage-safe"
  return object

/-! ### Fingerprints -/

/-- The text of `JSON.stringify` for the identity. -/
def initialText (identity : ImportPromotionIdentity) : String :=
  (Json.arr [.str "import-promotion-v2", .str identity.emailId, .str identity.claimToken]).stringify

/-- The text of `JSON.stringify` for an object after a fingerprint. -/
def objectText (identity : ImportPromotionIdentity) (fingerprint : String)
    (object : ImportPromotionObject) : String :=
  (Json.arr [.str "import-promotion-v2-object", .str identity.emailId, .str identity.claimToken,
    .str fingerprint, .num (some object.ordinal), .str object.r2Key,
    .num (some object.byteLength)]).stringify

variable (sha256Hex : String → String)

def importPromotionInitialFingerprint (identity : ImportPromotionIdentity) :
    Except String String := do
  requireIdentity identity
  return sha256Hex (initialText identity)

def advanceImportPromotionFingerprint (identity : ImportPromotionIdentity)
    (previousFingerprint : String) (objects : List ImportPromotionObject) :
    Except String String := do
  requireIdentity identity
  requireFingerprint previousFingerprint
  objects.foldlM (fun fingerprint rawObject => do
    let object ← validateImportPromotionObject identity rawObject
    return sha256Hex (objectText identity fingerprint object)) previousFingerprint

def importPromotionFingerprint (identity : ImportPromotionIdentity)
    (objects : List ImportPromotionObject) : Except String String := do
  let initial ← importPromotionInitialFingerprint sha256Hex identity
  advanceImportPromotionFingerprint sha256Hex identity initial objects

variable {sha256Hex} {identity : ImportPromotionIdentity} {object object' : ImportPromotionObject}

/-! ### What is validated -/

/-- What is known of an object that is validated. -/
structure ValidObject (identity : ImportPromotionIdentity) (object : ImportPromotionObject) :
    Prop where
  identity : validIdentity identity = true
  ordinal_safe : |object.ordinal| < 2 ^ 53
  ordinal_nonneg : 0 ≤ object.ordinal
  byteLength_safe : |object.byteLength| < 2 ^ 53
  byteLength_nonneg : 0 ≤ object.byteLength
  byteLength_le : object.byteLength ≤ IMPORT_PROMOTION_MAX_BYTES

/-- Validation returns the object it was given. -/
theorem validate_eq_ok (h : validateImportPromotionObject identity object = .ok object') :
    object' = object ∧ ValidObject identity object := by
  simp only [validateImportPromotionObject, requireIdentity, bind_eq_ok, require_eq_ok, pure_eq_ok,
    Bool.and_eq_true, decide_eq_true_eq, isSafeInteger] at h
  obtain ⟨-, hidentity, -, ⟨hordinal, hordinal'⟩, -, ⟨⟨hbytes, hbytes'⟩, hmax⟩, -, -, -, -, -, -, -,
    -, rfl⟩ := h
  exact ⟨rfl, hidentity, hordinal, hordinal', hbytes, hbytes', hmax⟩

/-! ### The chain of an identity -/

/-- How objects are hashed. -/
def promotionChain (sha256Hex : String → String) :
    HashChain.Scheme ImportPromotionIdentity ImportPromotionObject String String where
  hash := sha256Hex
  first := initialText
  next := objectText

/-- **What a fingerprint is**: the chain of the objects, when all of them are valid. -/
theorem advance_ok_iff :
    advanceImportPromotionFingerprint sha256Hex identity previous objects = .ok fingerprint ↔
      validIdentity identity = true ∧ sha256HexPattern previous = true ∧
        (∀ object ∈ objects, validateImportPromotionObject identity object = .ok object) ∧
        fingerprint = (promotionChain sha256Hex).extend identity previous objects := by
  have hfold : ∀ (objects : List ImportPromotionObject) (previous : String),
      objects.foldlM (fun fingerprint rawObject => do
        let object ← validateImportPromotionObject identity rawObject
        return sha256Hex (objectText identity fingerprint object)) previous = .ok fingerprint ↔
      (∀ object ∈ objects, validateImportPromotionObject identity object = .ok object) ∧
        fingerprint = (promotionChain sha256Hex).extend identity previous objects := by
    intro objects
    induction objects with
    | nil =>
        intro previous
        rw [List.foldlM_nil, pure_eq_ok]
        simp [eq_comm]
    | cons object objects ih =>
        intro previous
        simp only [List.foldlM_cons, bind_eq_ok, pure_eq_ok]
        constructor
        · rintro ⟨_, ⟨object', hvalid, rfl⟩, hrest⟩
          obtain ⟨hvalidRest, rfl⟩ := (ih _).mp hrest
          obtain ⟨rfl, -⟩ := validate_eq_ok hvalid
          exact ⟨List.forall_mem_cons.mpr ⟨hvalid, hvalidRest⟩, rfl⟩
        · rintro ⟨hvalid, rfl⟩
          obtain ⟨hhead, htail⟩ := List.forall_mem_cons.mp hvalid
          exact ⟨_, ⟨object, hhead, rfl⟩, (ih _).mpr ⟨htail, rfl⟩⟩
  simp only [advanceImportPromotionFingerprint, requireIdentity, requireFingerprint, bind_eq_ok,
    require_eq_ok, hfold]
  simp

/-- The fingerprint of a list of objects. -/
theorem importPromotionFingerprint_ok_iff :
    importPromotionFingerprint sha256Hex identity objects = .ok fingerprint ↔
      validIdentity identity = true ∧
        sha256HexPattern (sha256Hex (initialText identity)) = true ∧
        (∀ object ∈ objects, validateImportPromotionObject identity object = .ok object) ∧
        fingerprint = (promotionChain sha256Hex).digest identity objects := by
  simp only [importPromotionFingerprint, importPromotionInitialFingerprint, requireIdentity,
    bind_eq_ok, require_eq_ok, pure_eq_ok, advance_ok_iff]
  constructor
  · rintro ⟨_, ⟨-, -, rfl⟩, hrest⟩
    exact hrest
  · rintro ⟨hidentity, hrest⟩
    exact ⟨_, ⟨(), hidentity, rfl⟩, hidentity, hrest⟩

/-- **Batches**: a fingerprint that is advanced by more objects is that of all of them. -/
theorem importPromotionFingerprint_append {more : List ImportPromotionObject}
    (h : importPromotionFingerprint sha256Hex identity objects = .ok previous)
    (hmore : advanceImportPromotionFingerprint sha256Hex identity previous more =
      .ok fingerprint) :
    importPromotionFingerprint sha256Hex identity (objects ++ more) = .ok fingerprint := by
  obtain ⟨hidentity, hinitial, hvalid, rfl⟩ := importPromotionFingerprint_ok_iff.mp h
  obtain ⟨-, -, hvalidMore, rfl⟩ := advance_ok_iff.mp hmore
  refine importPromotionFingerprint_ok_iff.mpr ⟨hidentity, hinitial, ?_, ?_⟩
  · intro object hobject
    rcases List.mem_append.mp hobject with hobject | hobject
    · exact hvalid object hobject
    · exact hvalidMore object hobject
  · exact (HashChain.extend_append _ _ _ _ _).symm

/-! ### What the texts tell -/

theorem plain_strings {items : List Json} (h : ∀ v ∈ items, v.Plain) : (Json.arr items).Plain :=
  Json.overItems_iff.mpr h

theorem plain_num {n : ℤ} (h : |n| < 2 ^ 53) : (Json.num (some n)).Plain := by
  refine ⟨rfl, fun q hq => ?_⟩
  cases hq
  exact Double.isDouble_intCast h

theorem initialText_plain (identity : ImportPromotionIdentity) :
    (Json.arr [.str "import-promotion-v2", .str identity.emailId,
      .str identity.claimToken]).Plain := by
  refine plain_strings fun v hv => ?_
  simp only [List.mem_cons, List.not_mem_nil, or_false] at hv
  rcases hv with rfl | rfl | rfl <;> exact trivial

theorem objectText_plain (fingerprint : String) (h : ValidObject identity object)
    (name : ImportPromotionIdentity) :
    (Json.arr [.str "import-promotion-v2-object", .str name.emailId,
      .str name.claimToken, .str fingerprint, .num (some object.ordinal), .str object.r2Key,
      .num (some object.byteLength)]).Plain := by
  refine plain_strings fun v hv => ?_
  simp only [List.mem_cons, List.not_mem_nil, or_false] at hv
  rcases hv with rfl | rfl | rfl | rfl | rfl | rfl | rfl
  · exact trivial
  · exact trivial
  · exact trivial
  · exact trivial
  · exact plain_num h.ordinal_safe
  · exact trivial
  · exact plain_num h.byteLength_safe

/-- An object whose numbers are safe integers. -/
def SafeNumbers (object : ImportPromotionObject) : Prop := ∃ identity, ValidObject identity object

/-- The texts tell what they are made of. -/
theorem promotionChain_readable : (promotionChain sha256Hex).Readable SafeNumbers where
  first_inj name name' h := by
    have hjson := Json.stringify_inj (initialText_plain name) (initialText_plain name') h
    simp only [Json.arr.injEq, List.cons.injEq, Json.str.injEq, and_true, true_and] at hjson
    obtain ⟨hemail, htoken⟩ := hjson
    cases name
    cases name'
    simp_all
  next_inj name d object name' d' object' hgood hgood' h := by
    obtain ⟨_, hvalid⟩ := hgood
    obtain ⟨_, hvalid'⟩ := hgood'
    have hjson := Json.stringify_inj (objectText_plain d hvalid name)
      (objectText_plain d' hvalid' name') h
    simp only [Json.arr.injEq, List.cons.injEq, Json.str.injEq, Json.num.injEq, Option.some.injEq,
      Int.cast_inj, and_true, true_and] at hjson
    obtain ⟨hemail, htoken, hdigest, hordinal, hkey, hbytes⟩ := hjson
    cases name
    cases name'
    cases object
    cases object'
    simp_all
  apart name name' d' object' hgood' h := by
    obtain ⟨_, hvalid'⟩ := hgood'
    have hjson := Json.stringify_inj (initialText_plain name) (objectText_plain d' hvalid' name') h
    simp at hjson

/-- **What a fingerprint commits to**: two promotions with one fingerprint have one identity and
one list of objects, or SHA-256 has a collision among the texts that were hashed for them. -/
theorem fingerprint_binding {identity' : ImportPromotionIdentity}
    {objects' : List ImportPromotionObject}
    (h : importPromotionFingerprint sha256Hex identity objects = .ok fingerprint)
    (h' : importPromotionFingerprint sha256Hex identity' objects' = .ok fingerprint) :
    identity = identity' ∧ objects = objects' ∨
      (promotionChain sha256Hex).Collision
        ((promotionChain sha256Hex).texts identity objects)
        ((promotionChain sha256Hex).texts identity' objects') := by
  obtain ⟨-, -, hvalid, rfl⟩ := importPromotionFingerprint_ok_iff.mp h
  obtain ⟨-, -, hvalid', hsame⟩ := importPromotionFingerprint_ok_iff.mp h'
  refine HashChain.digest_binding promotionChain_readable (fun object hobject => ?_)
    (fun object hobject => ?_) hsame
  · exact ⟨identity, (validate_eq_ok (hvalid object hobject)).2⟩
  · exact ⟨identity', (validate_eq_ok (hvalid' object hobject)).2⟩

end MailPortal.Import
