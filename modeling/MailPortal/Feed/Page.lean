import MailPortal.Feed.Cursor

/-!
# Pages of the Change Feed

A page is the changes after a cursor, and the cursor of the last of them. It is validated as it is
read from the table, and validated again, with the cursor that was sent, by the client that receives
it. Without a cursor the page is empty and its cursor is that of the last change of all.

Main definitions:

* `validateMailboxChangePage`, `readMailboxChanges`.
* `exchange` : a request of the client, with the answer of the server.
-/

namespace MailPortal.Feed

open Failure

/-! ### Changes -/

/-- What a change is about. -/
inductive MailboxChangeResource where
  | message | attachment | folder | label | messageLabel | delivery | deliveryAttempt
  | automationRule | automationRun
deriving DecidableEq

/-- What was done to it. -/
inductive MailboxChangeOperation where
  | created | updated | deleted
deriving DecidableEq

/-- A resource as it is stored and sent. -/
def MailboxChangeResource.text : MailboxChangeResource → String
  | .message => "message"
  | .attachment => "attachment"
  | .folder => "folder"
  | .label => "label"
  | .messageLabel => "message_label"
  | .delivery => "delivery"
  | .deliveryAttempt => "delivery_attempt"
  | .automationRule => "automation_rule"
  | .automationRun => "automation_run"

/-- The resources that a page may name. -/
def MAILBOX_CHANGE_RESOURCES : List MailboxChangeResource :=
  [.message, .attachment, .folder, .label, .messageLabel, .delivery, .deliveryAttempt,
    .automationRule, .automationRun]

/-- An operation as it is stored and sent. -/
def MailboxChangeOperation.text : MailboxChangeOperation → String
  | .created => "created"
  | .updated => "updated"
  | .deleted => "deleted"

/-- The operations that a page may name. -/
def MAILBOX_CHANGE_OPERATIONS : List MailboxChangeOperation := [.created, .updated, .deleted]

/-- A change of a mailbox as clients are told of it. Its schema version is 1. -/
structure MailboxChange where
  sequence : ℤ
  committedAt : String
  resource : MailboxChangeResource
  entityId : String
  parentId : Option String
  operation : MailboxChangeOperation
deriving DecidableEq

/-- Changes in order, and the cursor of the last one. -/
structure MailboxChangePage where
  changes : List MailboxChange
  nextCursor : String
deriving DecidableEq

/-- A row of `mailbox_changes`. -/
structure MailboxChangeRow where
  sequence : ℤ
  schemaVersion : ℤ
  committedAt : String
  resource : String
  entityId : String
  parentId : Option String
  operation : String
deriving DecidableEq

/-- A row as the statement selects it. -/
def MailboxChangeRow.value (row : MailboxChangeRow) : Json :=
  .obj
    [("sequence", .ofInt row.sequence), ("schemaVersion", .ofInt row.schemaVersion),
      ("committedAt", .str row.committedAt), ("resource", .str row.resource),
      ("entityId", .str row.entityId), ("parentId", .ofNullable row.parentId),
      ("operation", .str row.operation)]

/-- The row of a change. -/
def MailboxChange.row (change : MailboxChange) : MailboxChangeRow where
  sequence := change.sequence
  schemaVersion := 1
  committedAt := change.committedAt
  resource := change.resource.text
  entityId := change.entityId
  parentId := change.parentId
  operation := change.operation.text

/-- A page as it is sent. -/
def MailboxChangePage.value (page : MailboxChangePage) : Json :=
  .obj
    [("changes", .arr (page.changes.map fun change => change.row.value)),
      ("nextCursor", .str page.nextCursor)]

/-! ### Validators -/

namespace MAILBOX_CHANGE_LIMITS

def maxPageSize : ℕ := 100

def identifierChars : ℕ := 700

def committedAtChars : ℕ := 64

end MAILBOX_CHANGE_LIMITS

/-- The one error of the validators of a page. -/
def pageError : String := "Mailbox change page is invalid"

/-- `/[\u0000-\u001F\u007F]/u` -/
def isControl (c : Char) : Bool := c.toNat ≤ 0x1F || c.toNat = 0x7F

/-- A text that is not empty, trimmed and in normal form (`normalize("NFC")` is the argument),
without control characters and not too long. -/
def identifier (normalizeNFC : String → String) (value : Option Json) : Checked String :=
  match value.bind Json.asString with
  | some value =>
      if value = "" || value ≠ normalizeNFC (trim value) || value.toList.any isControl ||
        MAILBOX_CHANGE_LIMITS.identifierChars < value.length then .error pageError
      else .ok value
  | none => .error pageError

/-- A time in the one form that `toISOString` writes. -/
def canonicalCommittedAt (value : Option Json) : Checked String :=
  match value.bind Json.asString with
  | some value =>
      if MAILBOX_CHANGE_LIMITS.committedAtChars < codeUnits value ||
        !isCanonicalUtcTimestamp value then .error pageError
      else .ok value
  | none => .error pageError

/-- An identifier or null. -/
def nullableIdentifier (normalizeNFC : String → String) (value : Option Json) :
    Checked (Option String) :=
  if value.any Json.isNull then .ok none else (identifier normalizeNFC value).map some

section Validators

variable (normalizeNFC : String → String)

/-- A change, with its seven members and no others. -/
def validateMailboxChange (value : Json) : Checked MailboxChange := do
  let keys ← orThrow (objectKeys value) pageError
  require (joinKeys (sorted keys) =
    "committedAt,entityId,operation,parentId,resource,schemaVersion,sequence") pageError
  let sequence ← orThrow (value.integerAt "sequence") pageError
  require (1 ≤ sequence && value.integerAt "schemaVersion" = some 1) pageError
  let resource ← orThrow (value.stringAt "resource" >>= fun text =>
    MAILBOX_CHANGE_RESOURCES.find? fun resource => resource.text = text) pageError
  let operation ← orThrow (value.stringAt "operation" >>= fun text =>
    MAILBOX_CHANGE_OPERATIONS.find? fun operation => operation.text = text) pageError
  let committedAt ← canonicalCommittedAt (value.get? "committedAt")
  let entityId ← identifier normalizeNFC (value.get? "entityId")
  let parentId ← nullableIdentifier normalizeNFC (value.get? "parentId")
  return { sequence, committedAt, resource, entityId, parentId, operation }

/-- The sequence numbers grow, from a first one on. -/
def ascends : ℤ → List MailboxChange → Bool
  | _, [] => true
  | previous, change :: changes => previous < change.sequence && ascends change.sequence changes

/-- A page, in order behind the cursor it was asked for with. -/
def validateMailboxChangePage (value : Json) (expectedAfter : Option ℤ) :
    Checked MailboxChangePage := do
  let keys ← orThrow (objectKeys value) pageError
  require (joinKeys (sorted keys) = "changes,nextCursor") pageError
  let items ← orThrow (value.itemsAt "changes") pageError
  let nextCursor ← orThrow (value.stringAt "nextCursor") pageError
  require (items.length ≤ MAILBOX_CHANGE_LIMITS.maxPageSize) pageError
  let changes ← items.mapM (validateMailboxChange normalizeNFC)
  require (expectedAfter.isSome || changes = []) pageError
  require (ascends (expectedAfter.getD 0) changes) pageError
  let nextSequence ← decodeMailboxChangeCursor nextCursor
  match changes.getLast? with
  | some last => require (nextSequence = last.sequence) pageError
  | none => require (expectedAfter.all fun after => nextSequence = after) pageError
  return { changes, nextCursor }

/-! ### The server -/

/-- A query; without a cursor it asks for the current one. -/
structure NormalizedMailboxChangeQuery where
  after : Option ℤ
  limit : ℤ
deriving DecidableEq

/-- The error of a query. -/
def queryError : String := "Mailbox change query is invalid"

/-- The cursor and the limit are in their bounds. -/
def validateNormalizedMailboxChangeQuery (value : NormalizedMailboxChangeQuery) :
    Checked NormalizedMailboxChangeQuery := do
  require ((value.after.all fun after => Json.isSafe after && 0 ≤ after) &&
    Json.isSafe value.limit && 1 ≤ value.limit &&
    value.limit ≤ MAILBOX_CHANGE_LIMITS.maxPageSize) queryError
  return value

/-- `COALESCE(MAX(sequence), 0)` -/
def maxSequence (table : List MailboxChangeRow) : ℤ :=
  ((table.map MailboxChangeRow.sequence).max?).getD 0

/-- The number of the last change. -/
def readMailboxCurrentSequence (table : List MailboxChangeRow) : Checked ℤ := do
  require (Json.isSafe (maxSequence table) && 0 ≤ maxSequence table)
    "Mailbox change sequence is invalid"
  return maxSequence table

/-- The rows of a page. -/
def selectChanges (table : List MailboxChangeRow) (after limit : ℤ) : List MailboxChangeRow :=
  ((table.filter fun row => after < row.sequence).insertionSort fun row row' =>
    row.sequence ≤ row'.sequence).take limit.toNat

/-- Selected rows as a page that is still to be checked. -/
def rowsPage (rows : List MailboxChangeRow) (nextCursor : String) : Json :=
  .obj [("changes", .arr (rows.map MailboxChangeRow.value)), ("nextCursor", .str nextCursor)]

/-- The page after a cursor. -/
def readChangesAfter (table : List MailboxChangeRow) (after limit : ℤ) :
    Checked MailboxChangePage := do
  let rows := selectChanges table after limit
  let nextCursor ←
    encodeMailboxChangeCursor ((rows.getLast?.map MailboxChangeRow.sequence).getD after)
  validateMailboxChangePage normalizeNFC (rowsPage rows nextCursor) (some after)

/-- What the server answers to a query. -/
def readMailboxChanges (table : List MailboxChangeRow) (options : NormalizedMailboxChangeQuery) :
    Checked MailboxChangePage := do
  let validated ← validateNormalizedMailboxChangeQuery options
  let current ← readMailboxCurrentSequence table
  match validated.after with
  | none => do
      let nextCursor ← encodeMailboxChangeCursor current
      validateMailboxChangePage normalizeNFC (rowsPage [] nextCursor) none
  | some after => do
      require (after ≤ current) "Future mailbox change cursor is invalid"
      readChangesAfter normalizeNFC table after validated.limit

/-! ### The client -/

/-- `listMailboxChanges` : what a client makes of the value that it receives. -/
def listMailboxChanges (cursor : Option String) (value : Json) : Checked MailboxChangePage := do
  let after ← cursor.mapM decodeMailboxChangeCursor
  validateMailboxChangePage normalizeNFC value after

end Validators

/-! ### Between them -/

/-- `/^[1-9]\d*$/` -/
def isWholeNumber (text : String) : Bool :=
  text.toList.all Json.isDigit && text.toList.head?.any (· ≠ '0')

def MAILBOX_CHANGE_LIMITS.defaultPageSize : ℕ := 100

/-- The only value of a parameter. -/
def one (params : List (String × String)) (key : String) : Checked (Option String) :=
  match params.filter fun param => param.1 = key with
  | [] => .ok none
  | [param] => .ok (some param.2)
  | _ => .error (key ++ " cannot be repeated")

/-- The error of the limit. -/
def limitError : String := "limit must be a whole number from 1 through 100"

/-- The query in the parameters of a URL. -/
def normalizeMailboxChangeQuery (params : List (String × String)) :
    Checked NormalizedMailboxChangeQuery := do
  match params.find? fun param => param.1 ≠ "after" && param.1 ≠ "limit" with
  | some param => .error ("Unsupported mailbox change query parameter: " ++ param.1)
  | none => do
    let rawLimit ← one params "limit"
    require (rawLimit.all isWholeNumber) limitError
    let limit : ℤ := (rawLimit.map fun text => Json.digitsValue text.toList).getD
      MAILBOX_CHANGE_LIMITS.defaultPageSize
    require (1 ≤ limit && limit ≤ MAILBOX_CHANGE_LIMITS.maxPageSize) limitError
    let rawAfter ← one params "after"
    let after ← rawAfter.mapM decodeMailboxChangeCursor
    validateNormalizedMailboxChangeQuery ⟨after, limit⟩

/-- What a client sends. -/
def changeParams : Option String → List (String × String)
  | none => []
  | some cursor => [("after", cursor)]

/-- What is sent back. -/
def serveChanges (normalizeNFC : String → String) (table : List MailboxChangeRow)
    (params : List (String × String)) : Checked String := do
  let options ← normalizeMailboxChangeQuery params
  let options ← validateNormalizedMailboxChangeQuery options
  let page ← readMailboxChanges normalizeNFC table options
  return Json.stringify page.value

/-- A request and its answer, when the server has this table. -/
def exchange (normalizeNFC : String → String) (table : List MailboxChangeRow)
    (cursor : Option String) : Checked MailboxChangePage := do
  let text ← serveChanges normalizeNFC table (changeParams cursor)
  let value ← orThrow (Json.parse text) "SyntaxError"
  listMailboxChanges normalizeNFC cursor value

end MailPortal.Feed
