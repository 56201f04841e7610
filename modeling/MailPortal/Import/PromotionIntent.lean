import MailPortal.Import.Fingerprint
import MailPortal.Lib.Runs
import MailPortal.Lib.Table

/-!
# Import Promotion Intents

The durable intent of a promotion: the number of objects and of bytes that its writer declares,
and the objects it has recorded so far, in two tables under the identity of the claim. `begin`
declares, `append` records a batch, `seal` closes the list and returns the fingerprint that proves
it. Each of them runs in a transaction, and all of them may be repeated: a writer that lost the
answer asks again. The fingerprint of a batch is computed between two transactions, from a snapshot
that may be stale when the batch is appended.

Main definitions:

* `beginImportPromotionIntent`, `appendImportPromotionIntent`, `sealImportPromotionIntent`.
* `step` : the calls of any number of writers, with any snapshots.
* `step_change` : all that a call can do to a promotion.
-/

namespace MailPortal.Import

open Failure Table

variable {objects : List ImportPromotionObject}
variable {now : ℤ}

/-! ### Tables -/

/-- A row of `import_generation_claims`. -/
structure ImportGenerationClaim where
  messageId : String
  claimToken : String
  expiresAt : ℤ
deriving DecidableEq

/-- The states of an intent. -/
inductive ImportPromotionState where
  | staging
  | recorded
  | reconciling
  | abandonedWatching
  | finalized
  | integrityBlocked
deriving DecidableEq

/-- A row of `import_promotion_intents`. -/
structure IntentRow where
  identity : ImportPromotionIdentity
  objectCount : ℤ
  totalByteLength : ℤ
  recordedCount : ℤ
  recordedByteLength : ℤ
  state : ImportPromotionState
  proofFingerprint : Option String
  rollingFingerprint : String
  lastAppendStart : Option ℤ
  lastAppendCount : Option ℤ
deriving DecidableEq

/-- A row of `import_promotion_intent_objects`. -/
structure IntentObjectRow where
  identity : ImportPromotionIdentity
  object : ImportPromotionObject
deriving DecidableEq

/-- The claims, the intents and their objects. -/
structure PromotionTables where
  claims : List ImportGenerationClaim
  intents : List IntentRow
  objects : List IntentObjectRow

namespace PromotionTables

def empty : PromotionTables := ⟨[], [], []⟩

/-- The intent of an identity. -/
def intent (t : PromotionTables) (identity : ImportPromotionIdentity) : Option IntentRow :=
  lookup IntentRow.identity identity t.intents

/-- The objects that are stored for an identity, in the order they were inserted. -/
def objectsOf (t : PromotionTables) (identity : ImportPromotionIdentity) :
    List ImportPromotionObject :=
  (t.objects.filter fun row => row.identity = identity).map IntentObjectRow.object

/-- The claim of an identity, while it is live. -/
def liveClaim (t : PromotionTables) (identity : ImportPromotionIdentity) (now : ℤ) :
    Option ImportGenerationClaim :=
  t.claims.find? fun claim => claim.messageId = identity.emailId ∧
    claim.claimToken = identity.claimToken ∧ now < claim.expiresAt

/-- The object that is stored under an ordinal. -/
def objectAt (t : PromotionTables) (identity : ImportPromotionIdentity) (ordinal : ℤ) :
    Option ImportPromotionObject :=
  (t.objectsOf identity).find? fun object => object.ordinal = ordinal

end PromotionTables

/-! ### Begin -/

/-- What a call answers. -/
inductive PromotionStatus where
  | begun
  | appended
  | sealed
  | replayed
deriving DecidableEq

variable {result : PromotionStatus × PromotionTables}

/-- The row that `begin` inserts. -/
def begunRow (identity : ImportPromotionIdentity) (objectCount totalByteLength : ℤ)
    (initialFingerprint : String) : IntentRow where
  identity := identity
  objectCount := objectCount
  totalByteLength := totalByteLength
  recordedCount := 0
  recordedByteLength := 0
  state := .staging
  proofFingerprint := none
  rollingFingerprint := initialFingerprint
  lastAppendStart := none
  lastAppendCount := none

def beginImportPromotionIntent (identity : ImportPromotionIdentity)
    (objectCount totalByteLength : ℤ) (initialFingerprint : String) (now : ℤ)
    (t : PromotionTables) : Except String (PromotionStatus × PromotionTables) := do
  requireIdentity identity
  requireFingerprint initialFingerprint
  require (isSafeInteger objectCount && decide (0 ≤ objectCount))
    "Import promotion object count is invalid"
  require (isSafeInteger totalByteLength && decide (0 ≤ totalByteLength) &&
    decide (totalByteLength ≤ IMPORT_PROMOTION_MAX_BYTES))
    "Import promotion total byte length is invalid"
  require (t.liveClaim identity now).isSome "Import promotion claim is not live"
  match t.intent identity with
  | some existing => do
      require (decide (existing.objectCount = objectCount) &&
        decide (existing.totalByteLength = totalByteLength) &&
        !(decide (existing.recordedCount = 0) &&
          decide (existing.rollingFingerprint ≠ initialFingerprint)))
        "Import promotion begin replay conflicts with durable intent"
      return (.replayed, t)
  | none =>
      return (.begun, { t with
        intents := t.intents ++ [begunRow identity objectCount totalByteLength
          initialFingerprint] })

/-! ### Append -/

/-- Where the next batch goes. -/
structure ImportPromotionAppendSnapshot where
  recordedCount : ℤ
  rollingFingerprint : String

def readImportPromotionAppendSnapshot (identity : ImportPromotionIdentity) (t : PromotionTables) :
    Except String ImportPromotionAppendSnapshot := do
  requireIdentity identity
  let row ← orThrow (t.intent identity) "Import promotion intent was not begun"
  return ⟨row.recordedCount, row.rollingFingerprint⟩

/-- Every ordinal is one more than the one before. -/
def contiguous : List ImportPromotionObject → Bool
  | object :: next :: objects =>
      decide (next.ordinal = object.ordinal + 1) && contiguous (next :: objects)
  | _ => true

def firstOrdinal (objects : List ImportPromotionObject) : ℤ :=
  (objects.head?.map ImportPromotionObject.ordinal).getD 0

def lastOrdinal (objects : List ImportPromotionObject) : ℤ :=
  (objects.getLast?.map ImportPromotionObject.ordinal).getD 0

def totalBytes (objects : List ImportPromotionObject) : ℤ :=
  (objects.map ImportPromotionObject.byteLength).foldl (· + ·) 0

/-- An object is inserted if its ordinal and its key are new. -/
def insertObject (identity : ImportPromotionIdentity) (rows : List IntentObjectRow)
    (object : ImportPromotionObject) : Except String (List IntentObjectRow) := do
  require (rows.all fun row =>
    !(decide (row.identity = identity) && decide (row.object.ordinal = object.ordinal)) &&
      decide (row.object.r2Key ≠ object.r2Key)) "UNIQUE constraint failed"
  return rows ++ [⟨identity, object⟩]

/-- The row after a batch. -/
def appendedRow (row : IntentRow) (objects : List ImportPromotionObject)
    (nextRollingFingerprint : String) : IntentRow :=
  { row with
    recordedCount := row.recordedCount + objects.length
    recordedByteLength := row.recordedByteLength + totalBytes objects
    rollingFingerprint := nextRollingFingerprint
    lastAppendStart := some (firstOrdinal objects)
    lastAppendCount := some objects.length }

/-- A batch that is already recorded: it must be the last one, as it was. -/
def replayAppend (identity : ImportPromotionIdentity) (objects : List ImportPromotionObject)
    (intent : IntentRow) (t : PromotionTables) :
    Except String (PromotionStatus × PromotionTables) := do
  require (decide (intent.lastAppendStart = some (firstOrdinal objects)) &&
    decide (intent.lastAppendCount = some (objects.length : ℤ)) &&
    decide (lastOrdinal objects = intent.recordedCount - 1))
    "Import promotion append replay boundary conflicts"
  require (objects.all fun object =>
    match t.objectAt identity object.ordinal with
    | some row => decide (row.r2Key = object.r2Key) && decide (row.byteLength = object.byteLength)
    | none => false)
    "Import promotion append replay conflicts with durable intent"
  return (.replayed, t)

def appendImportPromotionIntent (identity : ImportPromotionIdentity)
    (objects : List ImportPromotionObject) (expectedSnapshot : ImportPromotionAppendSnapshot)
    (nextRollingFingerprint : String) (now : ℤ) (t : PromotionTables) :
    Except String (PromotionStatus × PromotionTables) := do
  requireFingerprint expectedSnapshot.rollingFingerprint
  requireFingerprint nextRollingFingerprint
  require (t.liveClaim identity now).isSome "Import promotion claim is not live"
  require (decide (objects.length ≠ 0) &&
    decide (objects.length ≤ IMPORT_PROMOTION_APPEND_LIMIT))
    "Import promotion append batch is invalid"
  let normalized ← objects.mapM (validateImportPromotionObject identity)
  require (contiguous normalized) "Import promotion append batch is not contiguous"
  let intent ← orThrow (t.intent identity) "Import promotion intent was not begun"
  require (decide (lastOrdinal normalized < intent.objectCount))
    "Import promotion append exceeds declared object count"
  if lastOrdinal normalized < intent.recordedCount then
    replayAppend identity normalized intent t
  else do
    require (decide (intent.state = .staging) &&
      decide (firstOrdinal normalized = intent.recordedCount) &&
      decide (intent.recordedCount = expectedSnapshot.recordedCount) &&
      decide (intent.rollingFingerprint = expectedSnapshot.rollingFingerprint))
      "Import promotion append order or generation conflicts"
    require (decide (intent.recordedByteLength + totalBytes normalized ≤ intent.totalByteLength))
      "Import promotion append exceeds declared byte length"
    let rows ← normalized.foldlM (insertObject identity) t.objects
    return (.appended, { t with
      objects := rows
      intents := update IntentRow.identity
        (appendedRow intent normalized nextRollingFingerprint) t.intents })

/-! ### Seal -/

/-- What a seal answers. -/
structure PromotionSeal where
  status : PromotionStatus
  proofFingerprint : String

/-- The row after a seal. -/
def sealedRow (row : IntentRow) : IntentRow :=
  { row with
    state := .recorded
    proofFingerprint := some row.rollingFingerprint }

def sealImportPromotionIntent (identity : ImportPromotionIdentity) (now : ℤ)
    (t : PromotionTables) : Except String (PromotionSeal × PromotionTables) := do
  require (t.liveClaim identity now).isSome "Import promotion claim is not live"
  let intent ← orThrow (t.intent identity) "Import promotion intent was not begun"
  match intent.proofFingerprint with
  | some proofFingerprint => do
      require (decide (proofFingerprint = intent.rollingFingerprint))
        "Import promotion seal replay conflicts with durable intent"
      return (⟨.replayed, proofFingerprint⟩, t)
  | none => do
      require (decide (intent.state = .staging) &&
        decide (intent.recordedCount = intent.objectCount) &&
        decide (intent.recordedByteLength = intent.totalByteLength))
        "Import promotion intent is incomplete"
      return (⟨.sealed, intent.rollingFingerprint⟩, { t with
        intents := update IntentRow.identity (sealedRow intent) t.intents })

/-! ### The system -/

/-- The calls of the writers. A batch comes with the snapshot its fingerprint was computed from,
which may be any; the claims are written by other code. -/
inductive PromotionCall where
  | claims (claims : List ImportGenerationClaim)
  | beginIntent (identity : ImportPromotionIdentity) (objectCount totalByteLength now : ℤ)
  | appendIntent (identity : ImportPromotionIdentity) (objects : List ImportPromotionObject)
      (snapshot : ImportPromotionAppendSnapshot) (now : ℤ)
  | sealIntent (identity : ImportPromotionIdentity) (now : ℤ)

variable (sha256Hex : String → String)

/-- The tables after a call that does not throw. -/
def callTables (t : PromotionTables) : PromotionCall → Except String PromotionTables
  | .claims claims => return { t with claims := claims }
  | .beginIntent identity objectCount totalByteLength now => do
      let initialFingerprint ← importPromotionInitialFingerprint sha256Hex identity
      let result ← beginImportPromotionIntent identity objectCount totalByteLength
        initialFingerprint now t
      return result.2
  | .appendIntent identity objects snapshot now => do
      let nextFingerprint ← advanceImportPromotionFingerprint sha256Hex identity
        snapshot.rollingFingerprint objects
      let result ← appendImportPromotionIntent identity objects snapshot nextFingerprint now t
      return result.2
  | .sealIntent identity now => do
      let result ← sealImportPromotionIntent identity now t
      return result.2

/-- A call in its transaction: one that throws is rolled back. -/
def step (t : PromotionTables) (call : PromotionCall) : PromotionTables :=
  match callTables sha256Hex t call with
  | .ok t' => t'
  | .error _ => t

variable {sha256Hex} {identity other : ImportPromotionIdentity} {t t' : PromotionTables}

/-! ### What the tables show after a write -/

theorem intent_insert (row : IntentRow) (objects : List IntentObjectRow) :
    PromotionTables.intent ⟨t.claims, t.intents ++ [row], objects⟩ other =
      (t.intent other).or (if row.identity = other then some row else none) := by
  rw [PromotionTables.intent, lookup_append]
  by_cases h : row.identity = other <;> simp [lookup, h, PromotionTables.intent]

theorem intent_update (row : IntentRow) {old : IntentRow} (hold : t.intent row.identity = some old)
    (objects : List IntentObjectRow) :
    PromotionTables.intent
        ⟨t.claims, update IntentRow.identity row t.intents, objects⟩ other =
      if row.identity = other then some row else t.intent other := by
  rw [PromotionTables.intent, lookup_update]
  by_cases h : row.identity = other
  · rw [if_pos h, if_pos h, ← h, show lookup IntentRow.identity row.identity t.intents =
      some old from hold, Option.map_some]
  · rw [if_neg h, if_neg h]
    rfl

theorem intent_identity {row : IntentRow} (h : t.intent identity = some row) :
    row.identity = identity :=
  (lookup_eq_some h).2

/-- The objects of a batch are inserted one after another. -/
theorem insertObjects_eq_ok {rows rows' : List IntentObjectRow}
    (h : objects.foldlM (insertObject identity) rows = .ok rows') :
    rows' = rows ++ objects.map fun object => ⟨identity, object⟩ := by
  induction objects generalizing rows with
  | nil =>
      rw [List.foldlM_nil, pure_eq_ok] at h
      rw [← h, List.map_nil, List.append_nil]
  | cons object objects ih =>
      rw [List.foldlM_cons, bind_eq_ok] at h
      obtain ⟨rows₁, hinsert, hrest⟩ := h
      simp only [insertObject, bind_eq_ok, pure_eq_ok] at hinsert
      obtain ⟨-, -, rfl⟩ := hinsert
      rw [ih hrest, List.map_cons, List.append_assoc]
      rfl

theorem objectsOf_append (objects : List ImportPromotionObject) (claims intents) :
    PromotionTables.objectsOf
        ⟨claims, intents, t.objects ++ objects.map fun object => ⟨identity, object⟩⟩ other =
      t.objectsOf other ++ if identity = other then objects else [] := by
  simp only [PromotionTables.objectsOf, List.filter_append, List.map_append, List.filter_map]
  by_cases h : identity = other
  · simp [h, Function.comp_def]
  · simp [h, Function.comp_def]

/-! ### What a call does -/

/-- A batch that is recorded, in the state that it is recorded in. -/
structure Recordable (identity : ImportPromotionIdentity) (row : IntentRow)
    (objects : List ImportPromotionObject) : Prop where
  staging : row.state = .staging
  nonempty : objects ≠ []
  valid : ∀ object ∈ objects, validateImportPromotionObject identity object = .ok object
  contiguous : contiguous objects = true
  first : firstOrdinal objects = row.recordedCount
  last : lastOrdinal objects < row.objectCount
  bytes : row.recordedByteLength + totalBytes objects ≤ row.totalByteLength

/-- A batch that is stored already, as the last one that was recorded. -/
structure Stored (identity : ImportPromotionIdentity) (t : PromotionTables) (row : IntentRow)
    (objects : List ImportPromotionObject) : Prop where
  nonempty : objects ≠ []
  contiguous : contiguous objects = true
  last : lastOrdinal objects = row.recordedCount - 1
  same : ∀ object ∈ objects, t.objectAt identity object.ordinal = some object

/-- **All that a call can do to a promotion.** -/
inductive Change (sha256Hex : String → String) (identity : ImportPromotionIdentity)
    (t t' : PromotionTables) : Prop
  | same (intent : t'.intent identity = t.intent identity)
      (objects : t'.objectsOf identity = t.objectsOf identity)
  | begun (objectCount totalByteLength : ℤ) (initial : String)
      (count : 0 ≤ objectCount) (bytes : 0 ≤ totalByteLength)
      (fresh : t.intent identity = none)
      (fingerprint : importPromotionFingerprint sha256Hex identity [] = .ok initial)
      (intent : t'.intent identity =
        some (begunRow identity objectCount totalByteLength initial))
      (objects : t'.objectsOf identity = t.objectsOf identity)
  | appended (row : IntentRow) (more : List ImportPromotionObject) (next : String)
      (old : t.intent identity = some row) (recordable : Recordable identity row more)
      (fingerprint : advanceImportPromotionFingerprint sha256Hex identity
        row.rollingFingerprint more = .ok next)
      (intent : t'.intent identity = some (appendedRow row more next))
      (objects : t'.objectsOf identity = t.objectsOf identity ++ more)
  | sealed (row : IntentRow) (old : t.intent identity = some row)
      (staging : row.state = .staging) (proof : row.proofFingerprint = none)
      (count : row.recordedCount = row.objectCount)
      (bytes : row.recordedByteLength = row.totalByteLength)
      (intent : t'.intent identity = some (sealedRow row))
      (objects : t'.objectsOf identity = t.objectsOf identity)

/-! ### Each call -/

theorem begin_eq_ok {objectCount totalByteLength : ℤ} {initial : String}
    (h : beginImportPromotionIntent identity objectCount totalByteLength initial now t =
      .ok result) :
    sha256HexPattern initial = true ∧ 0 ≤ objectCount ∧ 0 ≤ totalByteLength ∧
      ((∃ row, t.intent identity = some row ∧ row.objectCount = objectCount ∧
          row.totalByteLength = totalByteLength ∧ result.2 = t) ∨
        t.intent identity = none ∧ result.2 = { t with
          intents := t.intents ++ [begunRow identity objectCount totalByteLength initial] }) := by
  simp only [beginImportPromotionIntent, requireFingerprint, bind_eq_ok, require_eq_ok,
    Bool.and_eq_true, decide_eq_true_eq] at h
  obtain ⟨-, -, -, hinitial, -, ⟨-, hcount⟩, -, ⟨⟨-, hbytes⟩, -⟩, -, -, h⟩ := h
  refine ⟨hinitial, hcount, hbytes, ?_⟩
  cases hintent : t.intent identity with
  | some row =>
      simp only [hintent, bind_eq_ok, require_eq_ok, Bool.and_eq_true, decide_eq_true_eq,
        pure_eq_ok] at h
      obtain ⟨-, ⟨⟨hsameCount, hsameBytes⟩, -⟩, rfl⟩ := h
      exact .inl ⟨row, rfl, hsameCount, hsameBytes, rfl⟩
  | none =>
      simp only [hintent, pure_eq_ok] at h
      exact .inr ⟨rfl, by rw [← h]⟩

/-- An append that succeeds adds the batch, or finds it stored. -/
theorem append_eq_ok {snapshot : ImportPromotionAppendSnapshot} {next : String}
    (h : appendImportPromotionIntent identity objects snapshot next now t = .ok result) :
    ∃ row, t.intent identity = some row ∧
      (result = (.replayed, t) ∧ Stored identity t row objects ∨
        Recordable identity row objects ∧
          row.rollingFingerprint = snapshot.rollingFingerprint ∧
          result = (.appended, { t with
            objects := t.objects ++ objects.map fun object => ⟨identity, object⟩
            intents := update IntentRow.identity (appendedRow row objects next)
              t.intents })) := by
  simp only [appendImportPromotionIntent, requireFingerprint, bind_eq_ok, require_eq_ok,
    orThrow_eq_ok, mapM_eq_ok, Bool.and_eq_true, decide_eq_true_eq] at h
  obtain ⟨-, -, -, -, -, -, -, ⟨hlength, -⟩, normalized, hvalid, -, hcontiguous, row,
    hrow, -, hlast,
    h⟩ := h
  have hsame : normalized = objects ∧
      ∀ object ∈ objects, validateImportPromotionObject identity object = .ok object := by
    clear h hlast hcontiguous hlength
    induction hvalid with
    | nil => exact ⟨rfl, fun object hobject => by cases hobject⟩
    | cons hhead _ ih =>
        obtain ⟨rfl, hrest⟩ := ih
        obtain ⟨rfl, -⟩ := validate_eq_ok hhead
        exact ⟨rfl, List.forall_mem_cons.mpr ⟨hhead, hrest⟩⟩
  obtain ⟨rfl, hvalid⟩ := hsame
  have hnonempty : normalized ≠ [] := by
    rintro rfl
    exact hlength rfl
  refine ⟨row, hrow, ?_⟩
  by_cases hreplay : lastOrdinal normalized < row.recordedCount
  · rw [if_pos hreplay] at h
    simp only [replayAppend, bind_eq_ok, require_eq_ok, Bool.and_eq_true, decide_eq_true_eq,
      pure_eq_ok, List.all_eq_true] at h
    obtain ⟨-, ⟨-, hend⟩, -, hstored, rfl⟩ := h
    refine .inl ⟨rfl, hnonempty, hcontiguous, hend, fun object hobject => ?_⟩
    have hobject := hstored object hobject
    split at hobject
    · next stored hat =>
      -- the stored object has the ordinal, the key and the length of this one
      have hordinal : stored.ordinal = object.ordinal := by
        simpa using List.find?_some (show List.find? _ _ = some stored from hat)
      rw [Bool.and_eq_true, decide_eq_true_eq, decide_eq_true_eq] at hobject
      have heq : stored = object := by
        cases stored
        simp only at hordinal hobject
        rw [hordinal, hobject.1, hobject.2]
      rw [hat, heq]
    · cases hobject
  · rw [if_neg hreplay] at h
    simp only [bind_eq_ok, require_eq_ok, Bool.and_eq_true, decide_eq_true_eq, pure_eq_ok] at h
    obtain ⟨-, ⟨⟨⟨hstaging, hfirst⟩, -⟩, hrolling⟩, -, hbytes, rows, hrows, rfl⟩ := h
    refine .inr ⟨⟨hstaging, hnonempty, hvalid, hcontiguous, hfirst, hlast, hbytes⟩, hrolling, ?_⟩
    rw [insertObjects_eq_ok hrows]

/-- The objects of a batch are inserted when their ordinals and keys are new. -/
theorem insertObjects_ok {rows : List IntentObjectRow}
    (hkeys : (objects.map ImportPromotionObject.r2Key).Nodup)
    (hordinals : (objects.map ImportPromotionObject.ordinal).Nodup)
    (hnew : ∀ row ∈ rows, ∀ object ∈ objects, row.object.r2Key ≠ object.r2Key ∧
      (row.identity = identity → row.object.ordinal ≠ object.ordinal)) :
    objects.foldlM (insertObject identity) rows =
      .ok (rows ++ objects.map fun object => ⟨identity, object⟩) := by
  induction objects generalizing rows with
  | nil => rw [List.map_nil, List.append_nil, List.foldlM_nil]; rfl
  | cons object objects ih =>
      rw [List.map_cons, List.nodup_cons] at hkeys hordinals
      have hinsert : insertObject identity rows object = .ok (rows ++ [⟨identity, object⟩]) := by
        rw [insertObject, (require_eq_ok (u := ())).mpr ?_]
        · rfl
        · refine List.all_eq_true.mpr fun row hrow => ?_
          have hobject := hnew row hrow object List.mem_cons_self
          by_cases hid : row.identity = identity <;> simp [hid, hobject]
      rw [List.foldlM_cons, hinsert, ok_bind,
        ih hkeys.2 hordinals.2 fun row hrow other hother => ?_]
      · rw [List.map_cons, List.append_assoc]
        rfl
      · rcases List.mem_append.mp hrow with hrow | hrow
        · exact hnew row hrow other (List.mem_cons_of_mem _ hother)
        · obtain rfl := List.mem_singleton.mp hrow
          exact ⟨fun heq => hkeys.1 (List.mem_map.mpr ⟨other, hother, heq.symm⟩),
            fun _ heq => hordinals.1 (List.mem_map.mpr ⟨other, hother, heq.symm⟩)⟩

theorem seal_eq_ok {result : PromotionSeal × PromotionTables}
    (h : sealImportPromotionIntent identity now t = .ok result) :
    ∃ row, t.intent identity = some row ∧ result.1.proofFingerprint = row.rollingFingerprint ∧
      (row.proofFingerprint = some row.rollingFingerprint ∧ result.2 = t ∨
        row.proofFingerprint = none ∧ row.state = .staging ∧
          row.recordedCount = row.objectCount ∧ row.recordedByteLength = row.totalByteLength ∧
          result.2 = { t with
            intents := update IntentRow.identity (sealedRow row) t.intents }) := by
  simp only [sealImportPromotionIntent, bind_eq_ok, require_eq_ok, orThrow_eq_ok] at h
  obtain ⟨-, -, row, hrow, h⟩ := h
  refine ⟨row, hrow, ?_⟩
  cases hproof : row.proofFingerprint with
  | some proof =>
      simp only [hproof, bind_eq_ok, require_eq_ok, decide_eq_true_eq, pure_eq_ok] at h
      obtain ⟨-, rfl, rfl⟩ := h
      exact ⟨rfl, .inl ⟨rfl, rfl⟩⟩
  | none =>
      simp only [hproof, bind_eq_ok, require_eq_ok, Bool.and_eq_true, decide_eq_true_eq,
        pure_eq_ok] at h
      obtain ⟨-, ⟨⟨hstaging, hcount⟩, hbytes⟩, rfl⟩ := h
      exact ⟨rfl, .inr ⟨rfl, hstaging, hcount, hbytes, rfl⟩⟩

/-- The tables after a call or, if it throws, before it. -/
theorem step_eq (call : PromotionCall) :
    step sha256Hex t call = t ∨ callTables sha256Hex t call = .ok (step sha256Hex t call) := by
  rw [step]
  cases h : callTables sha256Hex t call with
  | ok t' => exact .inr rfl
  | error e => exact .inl rfl

/-- **Every call changes a promotion in one of these ways.** -/
theorem step_change (call : PromotionCall) (other : ImportPromotionIdentity) :
    Change sha256Hex other t (step sha256Hex t call) := by
  have hcases : step sha256Hex t call = t ∨
    callTables sha256Hex t call = .ok (step sha256Hex t call) := step_eq call
  rcases hcases with hsame | hok
  · rw [hsame]
    exact .same rfl rfl
  generalize step sha256Hex t call = t' at hok
  cases call with
  | claims claims =>
      cases hok
      exact .same rfl rfl
  | beginIntent identity objectCount totalByteLength now =>
      simp only [callTables, importPromotionInitialFingerprint, requireIdentity, bind_eq_ok,
        require_eq_ok, pure_eq_ok] at hok
      obtain ⟨_, ⟨-, hidentity, rfl⟩, result, hresult, rfl⟩ := hok
      obtain ⟨hinitial, hcount, hbytes, ⟨row, -, -, -, hsame⟩ | ⟨hfresh, hinsert⟩⟩ :=
        begin_eq_ok hresult
      · rw [hsame]
        exact .same rfl rfl
      · rw [hinsert]
        have hfingerprint : importPromotionFingerprint sha256Hex identity [] =
            .ok (sha256Hex (initialText identity)) :=
          importPromotionFingerprint_ok_iff.mpr
            ⟨hidentity, hinitial, fun _ hobject => (List.not_mem_nil hobject).elim, rfl⟩
        by_cases hother : identity = other
        · subst hother
          refine .begun objectCount totalByteLength _ hcount hbytes hfresh hfingerprint ?_ rfl
          rw [intent_insert, hfresh, Option.none_or]
          exact if_pos rfl
        · refine .same ?_ rfl
          rw [intent_insert, show (begunRow identity objectCount totalByteLength
            (sha256Hex (initialText identity))).identity = identity from rfl, if_neg hother,
            Option.or_none]
  | appendIntent identity objects snapshot now =>
      simp only [callTables, bind_eq_ok, pure_eq_ok] at hok
      obtain ⟨next, hnext, result, hresult, rfl⟩ := hok
      obtain ⟨row, hrow, ⟨hsame, -⟩ | ⟨hrecordable, hrolling, hwrite⟩⟩ := append_eq_ok hresult
      · rw [hsame]
        exact .same rfl rfl
      · have hid := intent_identity hrow
        have hold : t.intent (appendedRow row objects next).identity = some row := by
          rw [show (appendedRow row objects next).identity = row.identity from rfl, hid, hrow]
        have hintent : PromotionTables.intent ⟨t.claims, update IntentRow.identity
            (appendedRow row objects next) t.intents, t.objects ++ objects.map fun object =>
              ⟨identity, object⟩⟩ other =
            if identity = other then some (appendedRow row objects next) else t.intent other := by
          rw [intent_update _ hold, show (appendedRow row objects next).identity =
            identity from hid]
        rw [hwrite]
        by_cases hother : identity = other
        · subst hother
          refine .appended row objects next hrow hrecordable (hrolling ▸ hnext) ?_ ?_
          · rw [hintent, if_pos rfl]
          · rw [objectsOf_append, if_pos rfl]
        · refine .same ?_ ?_
          · rw [hintent, if_neg hother]
          · rw [objectsOf_append, if_neg hother, List.append_nil]
  | sealIntent identity now =>
      simp only [callTables, bind_eq_ok, pure_eq_ok] at hok
      obtain ⟨result, hresult, rfl⟩ := hok
      obtain ⟨row, hrow, -, ⟨-, hsame⟩ | ⟨hproof, hstaging, hcount, hbytes, hwrite⟩⟩ :=
        seal_eq_ok hresult
      · rw [hsame]
        exact .same rfl rfl
      · have hid := intent_identity hrow
        have hintent : PromotionTables.intent ⟨t.claims, update IntentRow.identity
            (sealedRow row) t.intents, t.objects⟩ other =
            if identity = other then some (sealedRow row) else t.intent other := by
          rw [← hid] at hrow ⊢
          exact intent_update (sealedRow row) hrow _
        rw [hwrite]
        by_cases hother : identity = other
        · subst hother
          exact .sealed row hrow hstaging hproof hcount hbytes (hintent.trans (if_pos rfl)) rfl
        · exact .same (hintent.trans (if_neg hother)) rfl

end MailPortal.Import
