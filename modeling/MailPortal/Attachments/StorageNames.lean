import MailPortal.Platform.Text

/-!
# The Names of Stored Attachments

An attachment is stored under a key that ends in its filename. A filename is bounded in its
characters and in its bytes, with its extension kept where it fits. Strings are lists of UTF-16
code units, since a filename may have surrogates that are not in pairs.
-/

namespace MailPortal.Attachments

open Utf16

def ATTACHMENT_PRESENTATION_FILENAME_CHARACTERS : ℕ := 255

def R2_OBJECT_KEY_MAX_BYTES : ℕ := 1024

/-- `"."` -/
def dotUnit : UInt16 := 0x2E

/-- `value.slice(0, end)`; a negative end counts from the end of the string. -/
def sliceBefore (value : Units) (stop : ℤ) : Units :=
  value.take (if stop < 0 then (value.length + stop).toNat else stop.toNat)

/-- `value.slice(start)`, from a start that is not negative. -/
def sliceFrom (value : Units) (start : ℤ) : Units := value.drop start.toNat

/-! ### Storage filenames -/

/-- The loop of `takeBoundedCharacters`. -/
def takeCharacters (maximumCharacters maximumBytes : ℕ) : List Units → ℕ → ℕ → List Units
  | [], _, _ => []
  | character :: rest, accepted, bytes =>
    if accepted ≥ maximumCharacters then []
    else if bytes + characterBytes character > maximumBytes then []
    else character ::
      takeCharacters maximumCharacters maximumBytes rest (accepted + 1)
        (bytes + characterBytes character)

def takeBoundedCharacters (value : Units) (maximumCharacters maximumBytes : ℕ) : Units :=
  (takeCharacters maximumCharacters maximumBytes (characters value) 0 0).flatten

def boundedFilename (value : Units) (maximumCharacters maximumBytes : ℕ) : Units :=
  let dot := lastIndexOf dotUnit value
  let extension := if dot > 0 then sliceFrom value dot else []
  let extensionCharacters := (characters extension).length
  let preserveExtension : Bool := extensionCharacters ≤ 64 &&
    extensionCharacters < maximumCharacters && utf8Bytes extension < maximumBytes
  let suffix := if preserveExtension then extension else []
  let stem := if preserveExtension then sliceBefore value dot else value
  let boundedStem := takeBoundedCharacters stem
    (maximumCharacters - (characters suffix).length) (maximumBytes - utf8Bytes suffix)
  boundedStem ++ suffix

/-- `/[\/\\:*?"<>|\x00-\x1f\x7f]/` -/
def isForbidden (u : UInt16) : Bool :=
  u ∈ [0x2F, 0x5C, 0x3A, 0x2A, 0x3F, 0x22, 0x3C, 0x3E, 0x7C] || u ≤ 0x1F || u = 0x7F

/-- `"untitled"` -/
def untitled : Units := unitsOf "untitled"

/-- `.replace(pattern, "_")`, of single units. -/
def replaceUnits (pattern : UInt16 → Bool) (value : Units) : Units :=
  value.map fun u => if pattern u then 0x5F else u

def safeAttachmentStorageFilename (value keyPrefix : Units) : Except String Units :=
  let availableBytes : ℤ := R2_OBJECT_KEY_MAX_BYTES - utf8Bytes keyPrefix
  if availableBytes ≤ 0 then
    .error "Attachment storage identity exceeds the R2 key limit."
  else
    let sanitized := replaceUnits isForbidden (if value = [] then untitled else value)
    let bounded := boundedFilename sanitized ATTACHMENT_PRESENTATION_FILENAME_CHARACTERS
      availableBytes.toNat
    if bounded ≠ [] then .ok bounded
    else
      let fallback := takeBoundedCharacters untitled 8 availableBytes.toNat
      if fallback ≠ [] then .ok fallback
      else .error "Attachment filename cannot fit the R2 key limit."

/-! ### Filenames in derived keys -/

/-- `/[\/\\:*?"<>|\x00-\x1f]/` -/
def isUnsafe (u : UInt16) : Bool :=
  u ∈ [0x2F, 0x5C, 0x3A, 0x2A, 0x3F, 0x22, 0x3C, 0x3E, 0x7C] || u ≤ 0x1F

def sanitizeFilename (name : Units) : Units :=
  replaceUnits isUnsafe (if name = [] then untitled else name)

def MAX_ATTACHMENT_STORAGE_FILENAME_BYTES : ℕ := 240

def MAX_ATTACHMENT_STORAGE_EXTENSION_BYTES : ℕ := 24

/-- The loop of `truncateUtf8Bytes`. -/
def truncateCharacters (maxBytes : ℕ) : List Units → ℕ → List Units
  | [], _ => []
  | character :: rest, usedBytes =>
    if usedBytes + characterBytes character > maxBytes then []
    else character :: truncateCharacters maxBytes rest (usedBytes + characterBytes character)

def truncateUtf8Bytes (value : Units) (maxBytes : ℕ) : Units :=
  if maxBytes = 0 ∨ value = [] then []
  else if utf8Bytes value ≤ maxBytes then value
  else (truncateCharacters maxBytes (characters value) 0).flatten

def boundedAttachmentStorageFilename (name : Units) : Units :=
  let cleaned := sanitizeFilename name
  if utf8Bytes cleaned ≤ MAX_ATTACHMENT_STORAGE_FILENAME_BYTES then cleaned
  else
    let dot := lastIndexOf dotUnit cleaned
    let hasExtension : Bool := dot > 0 && dot < cleaned.length - 1
    let extension :=
      if hasExtension then
        truncateUtf8Bytes (sliceFrom cleaned dot) MAX_ATTACHMENT_STORAGE_EXTENSION_BYTES
      else []
    let baseLimit := MAX_ATTACHMENT_STORAGE_FILENAME_BYTES - utf8Bytes extension
    let rawBase := if hasExtension then sliceBefore cleaned dot else cleaned
    let base := truncateUtf8Bytes rawBase baseLimit
    (if base ≠ [] then base else unitsOf "attachment") ++ extension

end MailPortal.Attachments
