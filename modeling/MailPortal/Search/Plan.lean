import MailPortal.Lib.Double
import MailPortal.Lib.Placeholders
import MailPortal.Lib.Sql
import MailPortal.Lib.SqlText
import MailPortal.Search.Query

/-!
# Search Plans

The two statements that a search runs, over the tables of a mailbox: one for a page of mails and one
for their number. A statement is kept as its parse tree, with the numbers of its placeholders, next
to the list of its parameters; both are built in the order of the source.

`Cond.bind` puts the parameters in the places of their numbers, and `Cond.eval` says on which mails
the condition is true, false or NULL.
-/

namespace MailPortal.Search

open Failure Placeholders

/-! ### Options -/

/-- A filter with one value, or with several. -/
inductive OneOrMany
  | one (value : String)
  | many (values : List String)
  deriving DecidableEq

/-- The values of a filter; an empty text is none. -/
def OneOrMany.source : OneOrMany → List String
  | one value => if value = "" then [] else [value]
  | many values => values

/-- What is asked for. The column and the direction to sort by may be anything, and are given here
when they are strings; a page or a limit that is no number is `NaN`. -/
structure MailSearchOptions where
  query : Option String := none
  terms : Option (List String) := none
  phrases : Option (List String) := none
  label_id : Option String := none
  folder : Option OneOrMany := none
  «from» : Option OneOrMany := none
  «to» : Option OneOrMany := none
  subject : Option OneOrMany := none
  filename : Option OneOrMany := none
  date_start : Option String := none
  date_end : Option String := none
  is_read : Option Bool := none
  is_starred : Option Bool := none
  has_attachment : Option Bool := none
  sortColumn : Option String := none
  sortDirection : Option String := none
  page : JsNumber := none
  limit : JsNumber := none

/-- `boundedValues(value, label, maxValues)` -/
def boundedValues (source : List String) (label : String) (maxValues : ℕ) :
    Except SearchQueryError (List String) := do
  require (!(maxValues < source.length ||
      source.any fun item => MAIL_SEARCH_LIMITS.tokenChars < codeUnits item))
    (tooLarge (label ++ " contains too many or oversized values"))
  return (((source.map trim).filter (· ≠ "")).eraseDups).take maxValues

/-- What is searched for, checked and merged with the query. -/
structure NormalizedSearch where
  needles : List String
  «from» : List String
  «to» : List String
  subject : List String
  filename : List String
  folder : List String
  labelId : Option String
  dateStart : Option String
  dateEnd : Option String
  isRead : Option Bool
  isStarred : Option Bool
  hasAttachment : Bool
  deriving DecidableEq

/-- The query, when it is not blank. -/
def parsedQuery (toLowerCase : String → String) (options : MailSearchOptions) :
    Except SearchQueryError (Option ParsedSearch) :=
  match options.query with
  | some query =>
      if isBlank query then .ok none else (parseSearchQuery toLowerCase query).map some
  | none => .ok none

/-- The source of a filter: the option, else what the query says. -/
def filterSource (option : Option OneOrMany) (parsed : Option (List String)) : List String :=
  match option with
  | some value => value.source
  | none => parsed.getD []

/-- The check of a date. -/
def checkDate (host : HostRuntime) (label : String) (date : Option String) :
    Except SearchQueryError Unit :=
  match date with
  | some date =>
      if date ≠ "" ∧ (40 < codeUnits date ∨ (host.dateParse date).isNone) then
        .error (invalid (label ++ " is invalid"))
      else .ok ()
  | none => .ok ()

/-- A text that is given and not blank, without the white space around it. -/
def trimmed (text : Option String) : Option String :=
  (text.map trim).filter (· ≠ "")

/-- An option takes the place of what the query says of it. -/
def mergeParsed (toLowerCase : String → String) (host : HostRuntime)
    (options : MailSearchOptions) : Except SearchQueryError NormalizedSearch := do
  let parsed ← parsedQuery toLowerCase options
  let terms ← boundedValues (options.terms.getD []) "Search terms" MAIL_SEARCH_LIMITS.tokens
  let phrases ← boundedValues (options.phrases.getD []) "Search phrases" MAIL_SEARCH_LIMITS.tokens
  let needles := ((((parsed.map (·.terms)).getD [] ++ (parsed.map (·.phrases)).getD [] ++ terms ++
    phrases).map trim).filter (· ≠ "")).eraseDups
  require (needles.length ≤ MAIL_SEARCH_LIMITS.tokens)
    (tooLarge "Search cannot contain more than 32 terms")
  require (!(options.label_id.any fun label => 128 < codeUnits (trim label)))
    (tooLarge "Label filter is too long")
  let dateStart := options.date_start.or (parsed.bind (·.date_start))
  let dateEnd := options.date_end.or (parsed.bind (·.date_end))
  checkDate host "Start date" dateStart
  checkDate host "End date" dateEnd
  let values := fun option parsedValues label => boundedValues
    (filterSource option (parsed.bind parsedValues)) label MAIL_SEARCH_LIMITS.valuesPerFilter
  let «from» ← values options.«from» (·.«from») "Sender filter"
  let «to» ← values options.«to» (·.«to») "Recipient filter"
  let subject ← values options.subject (·.subject) "Subject filter"
  let filename ← values options.filename (·.filename) "Filename filter"
  let folder ← values options.folder (·.folder) "Folder filter"
  return {
    needles, «from», «to», subject, filename, folder
    labelId := trimmed options.label_id
    dateStart, dateEnd
    isRead := options.is_read.or (parsed.bind (·.is_read))
    isStarred := options.is_starred.or (parsed.bind (·.is_starred))
    hasAttachment := (options.has_attachment.or (parsed.bind (·.has_attachment))).getD false }

/-! ### Tables -/

/-- A row of `emails`. -/
structure EmailRow where
  id : String
  folder_id : String
  subject : Option String
  sender : Option String
  recipient : Option String
  cc : Option String
  bcc : Option String
  date : Option String
  read : Option ℤ
  starred : Option ℤ
  body : Option String
  deriving DecidableEq

/-- A row of `attachments`. -/
structure AttachmentRow where
  email_id : String
  filename : String
  deriving DecidableEq

/-- A row of `folders`. -/
structure FolderRow where
  id : String
  name : String
  deriving DecidableEq

/-- A row of `email_labels`. -/
structure EmailLabelRow where
  email_id : String
  label_id : String
  deriving DecidableEq

/-- What a search reads. -/
structure SearchTables where
  emails : List EmailRow
  attachments : List AttachmentRow
  folders : List FolderRow
  email_labels : List EmailLabelRow

/-! ### Statements -/

/-- A parameter. -/
inductive Value
  | text (text : String)
  | number (number : JsNumber)
  deriving DecidableEq

/-- The text columns of `emails e`. -/
inductive EmailColumn
  | id | folder_id | subject | sender | recipient | cc | bcc | date | body
  deriving DecidableEq

/-- A column of a mail, or of the row that the innermost `EXISTS` looks at. -/
inductive Column
  | e (column : EmailColumn)
  | attachmentEmailId
  | attachmentFilename
  | folderId
  | folderName
  | labelEmailId
  | labelId
  deriving DecidableEq

/-- The columns `e.read` and `e.starred`. -/
inductive Flag
  | read | starred
  deriving DecidableEq

inductive Table
  | attachments | folders | email_labels
  deriving DecidableEq

/-- An operand of a comparison of texts, with placeholders `π`. -/
inductive Operand (π : Type)
  | column (column : Column)
  | literal (text : String)
  | param (p : π)
  | lower (operand : Operand π)
  deriving DecidableEq

/-- A condition, with placeholders `π`. -/
inductive Cond (π : Type)
  /-- `COALESCE(column, '') LIKE ?n ESCAPE '\' COLLATE NOCASE` -/
  | like (column : Column) (p : π)
  /-- `a = b` -/
  | eq (a b : Operand π)
  /-- `a <> b` -/
  | ne (a b : Operand π)
  /-- `a >= b` -/
  | ge (a b : Operand π)
  /-- `a < b` -/
  | lt (a b : Operand π)
  /-- `e.read = ?n`, `e.starred = ?n` -/
  | flag (flag : Flag) (p : π)
  | and (a b : Cond π)
  | or (a b : Cond π)
  /-- `EXISTS (SELECT 1 FROM table WHERE condition)` -/
  | exists_ (table : Table) (condition : Cond π)
  deriving DecidableEq

/-- The parts joined by `AND`. -/
def allOf {π : Type} (first : Cond π) (rest : List (Cond π)) : Cond π := rest.foldl .and first

/-- The parts joined by `OR`; there is one at least. -/
def anyOf {π : Type} (first : Cond π) (rest : List (Cond π)) : Cond π := rest.foldl .or first

@[simp] def Operand.bind {π ρ : Type} (bound : π → Option ρ) : Operand π → Option (Operand ρ)
  | column c => some (column c)
  | literal text => some (literal text)
  | param p => (bound p).map param
  | lower operand => (operand.bind bound).map lower

/-- The condition with its parameters in place. -/
@[simp] def Cond.bind {π ρ : Type} (bound : π → Option ρ) : Cond π → Option (Cond ρ)
  | like c p => (bound p).map (like c)
  | eq a b => (a.bind bound).bind fun a => (b.bind bound).map (eq a)
  | ne a b => (a.bind bound).bind fun a => (b.bind bound).map (ne a)
  | ge a b => (a.bind bound).bind fun a => (b.bind bound).map (ge a)
  | lt a b => (a.bind bound).bind fun a => (b.bind bound).map (lt a)
  | flag f p => (bound p).map (flag f)
  | and a b => (a.bind bound).bind fun a => (b.bind bound).map (and a)
  | or a b => (a.bind bound).bind fun a => (b.bind bound).map (or a)
  | exists_ table condition => (condition.bind bound).map (exists_ table)

/-! ### Meaning -/

/-- The rows that a condition looks at. -/
structure Rows where
  email : EmailRow
  attachment : Option AttachmentRow := none
  folder : Option FolderRow := none
  label : Option EmailLabelRow := none

@[simp] def EmailRow.column (e : EmailRow) : EmailColumn → Option String
  | .id => some e.id
  | .folder_id => some e.folder_id
  | .subject => e.subject
  | .sender => e.sender
  | .recipient => e.recipient
  | .cc => e.cc
  | .bcc => e.bcc
  | .date => e.date
  | .body => e.body

def EmailRow.flag (e : EmailRow) : Flag → Option ℤ
  | .read => e.read
  | .starred => e.starred

@[simp] def Rows.column (rows : Rows) : Column → Option String
  | .e c => rows.email.column c
  | .attachmentEmailId => rows.attachment.map (·.email_id)
  | .attachmentFilename => rows.attachment.map (·.filename)
  | .folderId => rows.folder.map (·.id)
  | .folderName => rows.folder.map (·.name)
  | .labelEmailId => rows.label.map (·.email_id)
  | .labelId => rows.label.map (·.label_id)

@[simp] def Value.asText : Value → Option String
  | text s => some s
  | number _ => none

def Value.asNumber : Value → JsNumber
  | text _ => none
  | number n => n

@[simp] def Operand.eval (rows : Rows) : Operand Value → Option String
  | column c => rows.column c
  | literal text => some text
  | param value => value.asText
  | lower operand => (operand.eval rows).map SqlText.lower

/-- The truth value of a condition. Texts are compared character by character. -/
def Cond.eval (tables : SearchTables) (rows : Rows) : Cond Value → Sql.Truth
  | like c p => p.asText.map (SqlText.like ((rows.column c).getD ""))
  | eq a b => Sql.eq (a.eval rows) (b.eval rows)
  | ne a b => Sql.ne (a.eval rows) (b.eval rows)
  | ge a b => Sql.le (b.eval rows) (a.eval rows)
  | lt a b => Sql.not (Sql.le (b.eval rows) (a.eval rows))
  | flag f p => Sql.eq ((rows.email.flag f).map fun n => (n : ℚ)) p.asNumber
  | and a b => Sql.allOf [a.eval tables rows, b.eval tables rows]
  | or a b => Sql.anyOf [a.eval tables rows, b.eval tables rows]
  | exists_ .attachments condition =>
      Sql.existsRow tables.attachments fun row =>
        condition.eval tables { rows with attachment := row }
  | exists_ .folders condition =>
      Sql.existsRow tables.folders fun row => condition.eval tables { rows with folder := row }
  | exists_ .email_labels condition =>
      Sql.existsRow tables.email_labels fun row => condition.eval tables { rows with label := row }

/-! ### Building the statements -/

/-- The statements are built with numbers in them. -/
abbrev Building (α : Type) := Build Value SearchQueryError α

/-- `InternalFolders.RETIRED_OUTBOUND` -/
def RETIRED_OUTBOUND : String := "_cancelled_outbound"

def escapeLike (value : String) : String := String.ofList (value.toList.flatMap SqlText.escape)

def likePattern (value : String) : Except SearchQueryError String := do
  let pattern := "%" ++ escapeLike value ++ "%"
  require (pattern.utf8ByteSize ≤ 50) (tooLarge "Search value exceeds the mailbox pattern limit")
  return pattern

/-- A pattern as a parameter. -/
def addPattern (value : String) : Building ℕ := do
  let pattern ← check (likePattern value)
  add (.text pattern)

/-- A mail has an attachment. -/
def someAttachment {π : Type} (more : List (Cond π)) : Cond π :=
  .exists_ .attachments (allOf (.eq (.column .attachmentEmailId) (.column (.e .id))) more)

/-- One of the columns matches. -/
def likeAny {π : Type} (first : Column) (rest : List Column) (p : π) : Cond π :=
  anyOf (.like first p) (rest.map fun column => .like column p)

/-- `orLike(params, values, columns)`, for values that are there. -/
def orLike (value : String) (values : List String) (first : Column) (rest : List Column) :
    Building (Cond ℕ) := do
  let clause := fun value => do
    let p ← addPattern value
    return likeAny first rest p
  let clause₀ ← clause value
  let clauses ← values.mapM clause
  return anyOf clause₀ clauses

/-- A filter adds its condition when it has values. -/
def filterClause (values : List String) (build : String → List String → Building (Cond ℕ)) :
    Building (List (Cond ℕ)) :=
  match values with
  | [] => pure []
  | value :: values => do
      let condition ← build value values
      return [condition]

/-- The condition on a needle. -/
def needleCondition {π : Type} (p : π) : Cond π :=
  .or (likeAny (.e .subject) [.e .body, .e .sender, .e .recipient, .e .cc, .e .bcc] p)
    (someAttachment [.like .attachmentFilename p])

/-- What a needle adds to the relevance: conditions with their weights. -/
def needleRelevance {π : Type} (p : π) : List (Cond π × ℕ) :=
  [(.like (.e .subject) p, 8), (likeAny (.e .sender) [.e .recipient] p, 4),
    (.like (.e .body) p, 2), (someAttachment [.like .attachmentFilename p], 6)]

/-- The folder has the value as its id or as its name. -/
def folderCondition {π : Type} (p : π) : Cond π :=
  .or (.eq (.lower (.column .folderId)) (.lower (.param p)))
    (.eq (.lower (.column .folderName)) (.lower (.param p)))

def folderClause (folder : String) (folders : List String) : Building (Cond ℕ) := do
  let clause := fun folder => do
    let p ← add (.text folder)
    return folderCondition p
  let clause₀ ← clause folder
  let clauses ← folders.mapM clause
  return .exists_ .folders
    (.and (.eq (.column .folderId) (.column (.e .folder_id))) (anyOf clause₀ clauses))

/-- A condition on a value that may be missing. -/
def optionClause {α : Type} (value : Option α) (build : α → Building (Cond ℕ)) :
    Building (List (Cond ℕ)) :=
  match value with
  | none => pure []
  | some value => do
      let condition ← build value
      return [condition]

/-- A flag as it is stored. -/
def flagValue (flag : Bool) : Value := .number (some (if flag then 1 else 0))

/-- The condition and the weights of a search. -/
structure Fragments (π : Type) where
  «where» : Cond π
  relevance : List (List (Cond π × ℕ))

/-- `fragments(search, params)`; the values to match attachments with are
`attachmentMatchValues`. -/
def fragments (search : NormalizedSearch) : Building (Fragments ℕ) := do
  let needles ← search.needles.mapM addPattern
  let «from» ← filterClause search.«from» fun v vs => orLike v vs (.e .sender) []
  let «to» ← filterClause search.«to» fun v vs => orLike v vs (.e .recipient) [.e .cc, .e .bcc]
  let subject ← filterClause search.subject fun v vs => orLike v vs (.e .subject) []
  let filename ← filterClause search.filename fun v vs => do
    let clause ← orLike v vs .attachmentFilename []
    return someAttachment [clause]
  let folder ← filterClause search.folder folderClause
  let label ← optionClause search.labelId fun label => do
    let p ← add (.text label)
    return .exists_ .email_labels (.and (.eq (.column .labelEmailId) (.column (.e .id)))
      (.eq (.column .labelId) (.param p)))
  let start ← optionClause (search.dateStart.filter (· ≠ "")) fun date => do
    let p ← add (.text date)
    return .ge (.column (.e .date)) (.param p)
  let stop ← optionClause (search.dateEnd.filter (· ≠ "")) fun date => do
    let p ← add (.text date)
    return .lt (.column (.e .date)) (.param p)
  let read ← optionClause search.isRead fun isRead => do
    let p ← add (flagValue isRead)
    return .flag .read p
  let starred ← optionClause search.isStarred fun isStarred => do
    let p ← add (flagValue isStarred)
    return .flag .starred p
  let attached := if search.hasAttachment then [someAttachment []] else []
  return {
    «where» := allOf (.ne (.column (.e .folder_id)) (.literal RETIRED_OUTBOUND))
      (needles.map needleCondition ++ «from» ++ «to» ++ subject ++ filename ++ folder ++ label ++
        start ++ stop ++ read ++ starred ++ attached)
    relevance := needles.map needleRelevance }

/-- The values that a shown attachment may match: the needles, and the filenames asked for. -/
def attachmentMatchValues (search : NormalizedSearch) : List String :=
  search.needles ++ search.filename

/-- The column and the direction to sort by; none for the order by relevance. -/
def explicitSort (options : MailSearchOptions) : Option (String × Bool) :=
  match options.sortColumn with
  | some column =>
      if column ∈ ["date", "sender", "recipient", "subject", "read", "starred"] then
        some (column, options.sortDirection = some "ASC")
      else none
  | none => none

/-- The statement for a page. The snippet has one arm for each needle, in which the placeholder
stands at the three places of the position. -/
structure DataStatement (π : Type) where
  fragments : Fragments π
  snippet : List π
  matchedAttachment : List (Cond π)
  order : Option (String × Bool)
  limit : π
  offset : π

/-- The two statements with their parameters. -/
structure MailSearchPlan where
  dataSql : DataStatement ℕ
  dataParams : List Value
  countSql : Cond ℕ
  countParams : List Value
  page : ℚ
  limit : ℚ

def dataStatement (search : NormalizedSearch) (order : Option (String × Bool))
    (limit offset : JsNumber) : Building (DataStatement ℕ) := do
  let data ← fragments search
  let snippet ← search.needles.mapM fun needle => add (.text needle)
  let matchedAttachment ← (attachmentMatchValues search).mapM fun value => do
    let p ← addPattern value
    return Cond.like .attachmentFilename p
  let limit ← add (.number limit)
  let offset ← add (.number offset)
  return { fragments := data, snippet, matchedAttachment, order, limit, offset }

/-- The page that is asked for, else the first. -/
def pageOf (options : MailSearchOptions) : ℚ :=
  match options.page with
  | some page => if page.den = 1 ∧ 0 < page then page else 1
  | none => 1

/-- The limit that is asked for between 1 and 100, else 25. -/
def limitOf (options : MailSearchOptions) : ℚ :=
  match options.limit with
  | some limit => if limit.den = 1 then min (max limit 1) 100 else 25
  | none => 25

/-- `(page - 1) * limit` on doubles. -/
def offsetOf (options : MailSearchOptions) : JsNumber :=
  (Double.nearest (pageOf options - 1)).bind fun before =>
    Double.nearest (before * limitOf options)

/-- Build a bounded, target-compatible plan. -/
def buildMailSearchPlan (toLowerCase : String → String) (host : HostRuntime)
    (options : MailSearchOptions) : Except SearchQueryError MailSearchPlan := do
  let search ← mergeParsed toLowerCase host options
  let (dataSql, dataParams) ← (dataStatement search (explicitSort options)
    (some (limitOf options)) (offsetOf options)).run []
  let (count, countParams) ← (fragments search).run []
  require (!(100 < dataParams.length || 100 < countParams.length))
    (tooLarge "Search uses too many combined filters")
  return { dataSql, dataParams, countSql := count.where, countParams,
           page := pageOf options, limit := limitOf options }

/-! ### Running the statements -/

/-- The rows of the statement for a page, before `ORDER BY`, `LIMIT` and `OFFSET`: the mails with
their folders (`LEFT JOIN`) for which the condition is true. -/
def dataRows (tables : SearchTables) (plan : MailSearchPlan) : List (EmailRow × Option FolderRow) :=
  match plan.dataSql.fragments.where.bind (valueAt plan.dataParams) with
  | none => []
  | some condition =>
      (tables.emails.flatMap fun e =>
        match tables.folders.filter fun f => e.folder_id = f.id with
        | [] => [(e, none)]
        | folders => folders.map fun f => (e, some f)).filter
          fun row => Sql.holds (condition.eval tables { email := row.1 })

/-- The mails that the other statement counts. -/
def countRows (tables : SearchTables) (plan : MailSearchPlan) : List EmailRow :=
  match plan.countSql.bind (valueAt plan.countParams) with
  | none => []
  | some condition => tables.emails.filter fun e => Sql.holds (condition.eval tables { email := e })

end MailPortal.Search
