import MailPortal.Lib.JsonRecord
import MailPortal.Platform.JavaScript

/-!
# Derived Objects

The attachments and body parts of an inbound mail are stored as objects of their own, under keys
that name the mail and the attempt that made them. Whoever asks for such objects to be cleaned up
names them all, with their lengths; the request is refused unless every key belongs to the mail and
the attempt.
-/

namespace MailPortal.Derived

/-- An object of an attempt. -/
structure DerivedObject where
  r2Key : String
  byteLength : ℤ
deriving DecidableEq

/-! ### Characters -/

/-- `/^[...]{lo,hi}$/`, of a class of characters. -/
def hasOnly (p : Char → Bool) (lo hi : ℕ) (cs : List Char) : Bool :=
  decide (lo ≤ cs.length) && decide (cs.length ≤ hi) && cs.all p

/-- `[A-Za-z0-9_-]` -/
def isWordChar (c : Char) : Bool := c.isAlphanum || c = '_' || c = '-'

/-- `[0-9a-f]` -/
def isLowerHex (c : Char) : Bool := c.isDigit || 'a' ≤ c && c ≤ 'f'

/-- `/[0-9a-f]/i` -/
def isHex (c : Char) : Bool := isLowerHex c || 'A' ≤ c && c ≤ 'F'

/-- `/^[a-f0-9]{64}$/` -/
def isFingerprint (s : String) : Bool := hasOnly isLowerHex 64 64 s.toList

/-- `PROJECTION_ATTEMPT_ID` -/
def isProjectionAttemptId (s : String) : Bool :=
  match s.toList.splitOn '-' with
  | [a, b, c, d, e] =>
      hasOnly isHex 8 8 a && hasOnly isHex 4 4 b && hasOnly isHex 4 4 c &&
        decide (c.head? = some '4') && hasOnly isHex 4 4 d &&
        d.head?.any (fun x => x ∈ ['8', '9', 'a', 'b', 'A', 'B']) && hasOnly isHex 12 12 e
  | _ => false

/-- `/^[A-Za-z0-9_-]{1,300}$/` -/
def isEmailId (s : String) : Bool := hasOnly isWordChar 1 300 s.toList

/-- `/^(0|[1-9]\d*)$/`, of a number of 511 at most. -/
def isObjectIndex (cs : List Char) : Bool :=
  cs.all Char.isDigit && (decide (cs = ['0']) || cs.head?.any fun c => c ≠ '0') &&
    (digitsValue cs).any fun n => n ≤ 511

/-! ### Keys -/

def attachmentPrefixOf (emailId projectionAttemptId : String) : String :=
  "attachments/" ++ emailId ++ "/" ++ projectionAttemptId ++ "/"

def bodyPrefixOf (emailId projectionAttemptId : String) : String :=
  "email-bodies/" ++ emailId ++ "/" ++ projectionAttemptId ++ "/"

/-- The rest of a text that starts with another. -/
def afterPrefix (start s : List Char) : Option (List Char) :=
  if start.isPrefixOf s then some (s.drop start.length) else none

/-- `[\\:*?"<>|\x00-\x1f]` -/
def isForbiddenInFilename (c : Char) : Bool :=
  c ∈ ['\\', ':', '*', '?', '"', '<', '>', '|'] || c.toNat ≤ 0x1f

def validAttachmentSuffix (emailId : String) (suffix : List Char) : Bool :=
  match suffix.splitOn '/' with
  | [attachmentId, filename] =>
      (afterPrefix (emailId ++ "-").toList attachmentId).any isObjectIndex &&
        decide (filename ≠ []) && !filename.any isForbiddenInFilename &&
        decide ((String.ofList filename).utf8ByteSize ≤ 240)
  | _ => false

def validBodySuffix (suffix : List Char) : Bool :=
  match suffix.splitOn '.' with
  | [index, extension] => isObjectIndex index && decide (extension = "body".toList)
  | _ => false

/-- The key is of an attachment or a body part of the attempt. -/
def validKey (emailId projectionAttemptId key : String) : Bool :=
  (afterPrefix (attachmentPrefixOf emailId projectionAttemptId).toList key.toList).any
      (validAttachmentSuffix emailId) ||
    (afterPrefix (bodyPrefixOf emailId projectionAttemptId).toList key.toList).any validBodySuffix

def validIdentity (emailId projectionAttemptId : String) : Bool :=
  isEmailId emailId && isProjectionAttemptId projectionAttemptId

def validKeys (emailId projectionAttemptId : String) (keys : List String) (allowEmpty : Bool) :
    Bool :=
  (allowEmpty || decide (1 ≤ keys.length)) && decide (keys.length ≤ 512) &&
    keys.all (fun key => decide (key.utf8ByteSize ≤ 1024)) && decide keys.Nodup &&
    keys.all (validKey emailId projectionAttemptId)

/-! ### Requests -/

/-- `InboundDerivedContentCleanupProofRequest` -/
structure CleanupProofRequest where
  emailId : String
  projectionAttemptId : String
  objects : List DerivedObject
deriving DecidableEq

/-- `validateInboundDerivedContentCleanupRequest`, which throws where this is false. -/
def validCleanupRequest (emailId projectionAttemptId : String) (keys : List String) : Bool :=
  validIdentity emailId projectionAttemptId && validKeys emailId projectionAttemptId keys false

/-- `validateInboundDerivedContentCleanupProof` -/
def validCleanupProof (request : CleanupProofRequest) : Bool :=
  validIdentity request.emailId request.projectionAttemptId &&
    validKeys request.emailId request.projectionAttemptId
      (request.objects.map DerivedObject.r2Key) false &&
    request.objects.all fun object =>
      Json.isSafe object.byteLength && decide (0 ≤ object.byteLength)

example : validKey "mail_1" "0b0d2ab4-5c1d-4d7e-9f3a-0123456789ab"
    "email-bodies/mail_1/0b0d2ab4-5c1d-4d7e-9f3a-0123456789ab/0.body" = true := by
  decide +kernel

end MailPortal.Derived
