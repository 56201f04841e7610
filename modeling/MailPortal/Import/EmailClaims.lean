import MailPortal.Import.PromotionIntent

/-!
# Claims of Imported Messages

An importer claims the id of a message before it writes it, under a token and for a time. A claim by
the digest of the raw message reserves the id for this digest, for ever. The message may be there
already, under its id or under the id that an earlier importer gave it; then there is nothing left
to claim.

Main definitions:

* `claimImportedEmail`, `renewImportedEmailClaim`, `releaseImportedEmailClaim`.
* `importStep` : the operations on claims, intents and messages, each in its transaction.
-/

namespace MailPortal.Import

open Failure

/-! ### Tables -/

/-- A row of `import_source_identities`. -/
structure SourceIdentity where
  emailId : String
  rawSha256 : String
deriving DecidableEq

/-- A row of `emails`, as far as a claim reads it. -/
structure ImportedEmailRow where
  id : String
  folderId : String
deriving DecidableEq

inductive ImportIdentitySource where
  | messageId
  | rawSha256
deriving DecidableEq

/-- The claims, intents and objects of importers, the reserved digests, and the messages. -/
structure ImportTables where
  promotion : PromotionTables
  sources : List SourceIdentity
  emails : List ImportedEmailRow

/-- What a claim answers. -/
inductive ImportEmailClaimResult where
  | claimed
  | existing (id folder : String) (rawSha256 : Option String)
  | identityConflict (id : String)
  | busy
deriving DecidableEq

/-- The states of an intent that was sealed and is not settled. -/
def ImportPromotionState.sealed : ImportPromotionState → Bool
  | .recorded | .reconciling | .abandonedWatching => true
  | _ => false

/-- The intent belongs to a claim. -/
def IntentRow.ofClaim (row : IntentRow) (emailId token : String) : Bool :=
  decide (row.identity = ⟨emailId, token⟩)

def ImportGenerationClaim.held (claim : ImportGenerationClaim) (emailId token : String) : Bool :=
  decide (claim.messageId = emailId) && decide (claim.claimToken = token)

/-! ### Statements -/

namespace PromotionTables

variable (t : PromotionTables)

/-- `SELECT ... FROM import_generation_claims WHERE message_id = ? LIMIT 1` -/
def claimOf (emailId : String) : Option ImportGenerationClaim :=
  t.claims.find? fun claim => claim.messageId = emailId

/-- Delete the intents of a claim that are not sealed, with their objects. -/
def deleteStaging (emailId token : String) : PromotionTables :=
  { t with
    intents := Table.deleteWhere
      (fun row => row.ofClaim emailId token && decide (row.state = .staging)) t.intents
    objects := Table.deleteWhere (fun object => t.intents.any fun row =>
      row.ofClaim emailId token && decide (row.state = .staging) &&
        decide (object.identity = row.identity)) t.objects }

/-- Leave the sealed intents of a claim to the clean-up. -/
def abandon (emailId token : String) : PromotionTables :=
  { t with
    intents := Table.updateWhere (fun row => row.ofClaim emailId token && row.state.sealed)
      (fun row => { row with state := .abandonedWatching }) t.intents }

def deleteClaims (p : ImportGenerationClaim → Bool) : PromotionTables :=
  { t with claims := Table.deleteWhere p t.claims }

/-- An intent of the message is blocked. -/
def blocked (emailId : String) : Bool :=
  t.intents.any fun row => decide (row.identity.emailId = emailId) &&
    decide (row.state = .integrityBlocked)

end PromotionTables

/-- The digest that an id is reserved for. -/
def ImportTables.evidence (t : ImportTables) (emailId : String) : Option String :=
  (t.sources.find? fun source => source.emailId = emailId).map SourceIdentity.rawSha256

/-! ### Claims -/

def candidateIds (emailId legacyId : String) : List String :=
  if emailId = legacyId then [emailId] else [emailId, legacyId]

/-- The first candidate that is reserved for something else. -/
def conflictingEvidence (t : ImportTables) (emailId legacyId : String)
    (identitySource : ImportIdentitySource) (rawSha256 : Option String) : Option String :=
  (candidateIds emailId legacyId).find? fun candidateId =>
    (t.evidence candidateId).any fun digest =>
      decide (identitySource ≠ .rawSha256) || decide (some digest ≠ rawSha256)

/-- The message, or the one under the earlier id. -/
def existingEmail (t : ImportTables) (emailId legacyId : String) : Option ImportedEmailRow :=
  (t.emails.find? fun email => email.id = emailId).or
    (t.emails.find? fun email => email.id = legacyId)

/-- The message is not the one that the id is reserved for. -/
def unproven (t : ImportTables) (existing : ImportedEmailRow)
    (identitySource : ImportIdentitySource) (rawSha256 : Option String) : Bool :=
  decide (identitySource = .rawSha256) &&
    !((t.evidence existing.id).any fun digest => some digest = rawSha256)

/-- The claim of a message that is there is given up, whoever holds it. -/
def endClaim (emailId : String) (t : PromotionTables) : PromotionTables :=
  let t := match t.claimOf emailId with
    | some currentClaim => t.deleteStaging emailId currentClaim.claimToken
    | none => t
  t.deleteClaims fun claim => claim.messageId = emailId

/-- A claim that has expired is given up. -/
def endExpiredClaim (emailId : String) (now : ℤ) (t : PromotionTables) : PromotionTables :=
  let expired := t.claims.find? fun claim =>
    decide (claim.messageId = emailId) && decide (claim.expiresAt ≤ now)
  let t := match expired with
    | some claim => (t.abandon emailId claim.claimToken).deleteStaging emailId claim.claimToken
    | none => t
  if t.blocked emailId then t
  else t.deleteClaims fun claim =>
    decide (claim.messageId = emailId) && decide (claim.expiresAt ≤ now)

/-- `INSERT OR IGNORE`: the id must be new, and the digest one, where there is one. -/
def insertClaim (emailId token : String) (expiresAt : ℤ) (rawSha256 : Option String)
    (t : PromotionTables) : PromotionTables :=
  if t.claims.all (fun claim => claim.messageId ≠ emailId) && rawSha256.all sha256HexPattern then
    { t with claims := t.claims ++ [⟨emailId, token, expiresAt⟩] }
  else t

/-- `INSERT OR IGNORE`: the id must be new, and the digest one. -/
def reserve (emailId : String) (rawSha256 : Option String) (sources : List SourceIdentity) :
    List SourceIdentity :=
  match rawSha256 with
  | some digest =>
      if sources.all (fun source => source.emailId ≠ emailId) && sha256HexPattern digest then
        sources ++ [⟨emailId, digest⟩]
      else sources
  | none => sources

/-- The claim of a message that is not there. -/
def claimMissing (emailId token : String) (now expiresAt : ℤ)
    (identitySource : ImportIdentitySource) (rawSha256 : Option String) (t : ImportTables) :
    Except String (ImportEmailClaimResult × ImportTables) := do
  let t := { t with
    promotion := insertClaim emailId token expiresAt rawSha256
      (endExpiredClaim emailId now t.promotion) }
  if (t.promotion.claimOf emailId).map ImportGenerationClaim.claimToken ≠ some token then
    return (.busy, t)
  else if identitySource = .rawSha256 then do
    let t := { t with sources := reserve emailId rawSha256 t.sources }
    require ((t.evidence emailId).any fun reserved => some reserved = rawSha256)
      "Import source identity reservation conflicted"
    return (.claimed, t)
  else return (.claimed, t)

def claimImportedEmail (emailId legacyId token : String) (now expiresAt : ℤ)
    (identitySource : ImportIdentitySource) (rawSha256 : Option String) (t : ImportTables) :
    Except String (ImportEmailClaimResult × ImportTables) :=
  match conflictingEvidence t emailId legacyId identitySource rawSha256 with
  | some candidateId => .ok (.identityConflict candidateId, t)
  | none =>
      match existingEmail t emailId legacyId with
      | some existing =>
          if unproven t existing identitySource rawSha256 then
            .ok (.identityConflict existing.id, t)
          else if t.promotion.blocked emailId then .ok (.busy, t)
          else
            .ok (.existing existing.id existing.folderId
              (if identitySource = .rawSha256 then rawSha256 else none),
              { t with promotion := endClaim emailId t.promotion })
      | none =>
          if t.promotion.blocked emailId then .ok (.busy, t)
          else claimMissing emailId token now expiresAt identitySource rawSha256 t

/-! ### Release and renewal -/

def releaseImportedEmailClaim (emailId token : String) (t : ImportTables) : Bool × ImportTables :=
  let protectedIntent := t.promotion.intents.any fun row => row.ofClaim emailId token &&
    (row.state.sealed || decide (row.state = .integrityBlocked))
  if protectedIntent then (false, t)
  else
    (true, { t with
      promotion := (t.promotion.deleteStaging emailId token).deleteClaims fun claim =>
        claim.held emailId token })

/-- The intents of a claim are to be looked at again when the claim expires; their times are not
kept here. -/
def renewImportedEmailClaim (emailId token : String) (now expiresAt : ℤ) (t : ImportTables) :
    Bool × ImportTables :=
  match t.promotion.claimOf emailId with
  | some current =>
      if current.claimToken ≠ token ∨ current.expiresAt ≤ now then (false, t)
      else
        (true, { t with
          promotion := { t.promotion with
            claims := Table.updateWhere
              (fun claim => claim.held emailId token && decide (now < claim.expiresAt))
              (fun claim => { claim with expiresAt := expiresAt }) t.promotion.claims } })
  | none => (false, t)

/-! ### Clean-up -/

/-- The claims that a clean-up ends: the first that have expired. -/
def expiredClaims (now : ℤ) (claims : List ImportGenerationClaim) : List ImportGenerationClaim :=
  ((claims.filter fun claim => claim.expiresAt ≤ now).insertionSort fun claim claim' =>
    claim.expiresAt < claim'.expiresAt ∨
      claim.expiresAt = claim'.expiresAt ∧ claim.messageId ≤ claim'.messageId).take 5

/-- A clean-up ends one claim, unless its intent is blocked. -/
def cleanUpClaim (now : ℤ) (t : PromotionTables) (claim : ImportGenerationClaim) :
    PromotionTables :=
  let t := (t.abandon claim.messageId claim.claimToken).deleteStaging claim.messageId
    claim.claimToken
  if t.intents.any fun row => row.ofClaim claim.messageId claim.claimToken &&
      decide (row.state = .integrityBlocked) then t
  else t.deleteClaims fun row => row.held claim.messageId claim.claimToken &&
    decide (row.expiresAt ≤ now)

/-- The first transaction of `#processImportPromotionIntents`. -/
def cleanUpClaims (now : ℤ) (t : PromotionTables) : PromotionTables :=
  (expiredClaims now t.claims).foldl (cleanUpClaim now) t

/-- How a reconciliation of an intent ends: it goes on, with its writer closed or not, or it is
settled, or the objects are not what was recorded. -/
inductive ReconcileOutcome where
  | pending (writerClosed : Bool)
  | finalized
  | integrityBlocked
deriving DecidableEq

/-- The state after a reconciliation. -/
def ReconcileOutcome.state : ReconcileOutcome → ImportPromotionState
  | pending true => .recorded
  | pending false => .abandonedWatching
  | finalized => .finalized
  | integrityBlocked => .integrityBlocked

/-- The first transaction of a reconciliation, where it does not return at once. -/
def startReconcile (identity : ImportPromotionIdentity) (proofFingerprint : String)
    (t : PromotionTables) : PromotionTables :=
  { t with
    intents := Table.updateWhere
      (fun row => decide (row.identity = identity) &&
        decide (row.proofFingerprint = some proofFingerprint) && row.state.sealed)
      (fun row => { row with state := .reconciling }) t.intents }

/-- The second transaction of a reconciliation that was not overtaken. What it finds in the bucket
is any outcome. -/
def endReconcile (identity : ImportPromotionIdentity) (outcome : ReconcileOutcome)
    (t : PromotionTables) : PromotionTables :=
  if t.intents.any fun row => decide (row.identity = identity) && decide (row.state = .reconciling)
  then
    let t := { t with
      intents := Table.updateWhere
        (fun row => decide (row.identity = identity) && decide (row.state = .reconciling))
        (fun row => { row with state := outcome.state }) t.intents }
    if outcome = .finalized then
      t.deleteClaims fun claim => claim.held identity.emailId identity.claimToken
    else t
  else t

/-! ### The system -/

/-- The operations, with any clock readings. -/
inductive ImportCall where
  | claim (emailId legacyId token : String) (now expiresAt : ℤ)
      (identitySource : ImportIdentitySource) (rawSha256 : Option String)
  | renew (emailId token : String) (now expiresAt : ℤ)
  | release (emailId token : String)
  | beginIntent (identity : ImportPromotionIdentity) (objectCount totalByteLength now : ℤ)
  | appendIntent (identity : ImportPromotionIdentity) (objects : List ImportPromotionObject)
      (snapshot : ImportPromotionAppendSnapshot) (now : ℤ)
  | sealIntent (identity : ImportPromotionIdentity) (now : ℤ)
  | startReconcile (identity : ImportPromotionIdentity) (proofFingerprint : String)
  | endReconcile (identity : ImportPromotionIdentity) (outcome : ReconcileOutcome)
  | cleanUp (now : ℤ)
  | insertEmail (id folderId : String)

variable (sha256Hex : String → String)

/-- The tables after an operation that does not throw. -/
def importCallTables (t : ImportTables) : ImportCall → Except String ImportTables
  | .claim emailId legacyId token now expiresAt identitySource rawSha256 => do
      let result ← claimImportedEmail emailId legacyId token now expiresAt identitySource
        rawSha256 t
      return result.2
  | .renew emailId token now expiresAt => return (renewImportedEmailClaim emailId token now
      expiresAt t).2
  | .release emailId token => return (releaseImportedEmailClaim emailId token t).2
  | .beginIntent identity objectCount totalByteLength now => do
      let promotion ← callTables sha256Hex t.promotion
        (.beginIntent identity objectCount totalByteLength now)
      return { t with promotion := promotion }
  | .appendIntent identity objects snapshot now => do
      let promotion ← callTables sha256Hex t.promotion (.appendIntent identity objects snapshot now)
      return { t with promotion := promotion }
  | .sealIntent identity now => do
      let promotion ← callTables sha256Hex t.promotion (.sealIntent identity now)
      return { t with promotion := promotion }
  | .startReconcile identity proofFingerprint =>
      return { t with promotion := startReconcile identity proofFingerprint t.promotion }
  | .endReconcile identity outcome =>
      return { t with promotion := endReconcile identity outcome t.promotion }
  | .cleanUp now => return { t with promotion := cleanUpClaims now t.promotion }
  | .insertEmail id folderId =>
      if t.emails.any fun email => email.id = id then .error "UNIQUE constraint failed"
      else return { t with emails := t.emails ++ [⟨id, folderId⟩] }

/-- **An operation in its transaction**: one that throws is rolled back. -/
def importStep (t : ImportTables) (call : ImportCall) : ImportTables :=
  match importCallTables sha256Hex t call with
  | .ok t' => t'
  | .error _ => t

def ImportTables.empty : ImportTables := ⟨.empty, [], []⟩

end MailPortal.Import
