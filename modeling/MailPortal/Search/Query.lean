import MailPortal.Lib.Failure
import MailPortal.Platform.JavaScript

/-!
# Search Queries

What a user types into the search field. The text is read into tokens, which white space separates
and quotes hold together, and the tokens are folded into filters, terms and phrases.

The lexer keeps the value of the token that it reads, and remembers whether a quote was part of it
until a token is pushed. A value that is empty is not pushed.

Lower case is the host's (`toLowerCase`), and any function will do.
-/

namespace MailPortal.Search

open Failure

/-! ### Limits and errors -/

namespace MAIL_SEARCH_LIMITS

def queryChars : ℕ := 500
def tokens : ℕ := 32
def tokenChars : ℕ := 200
def valuesPerFilter : ℕ := 8

end MAIL_SEARCH_LIMITS

inductive SearchQueryErrorCode
  | INVALID_QUERY
  | QUERY_TOO_LARGE
  deriving DecidableEq

/-- Why a query is refused. -/
structure SearchQueryError where
  code : SearchQueryErrorCode
  message : String
  deriving DecidableEq

/-- `invalid(message)`. -/
def invalid (message : String) : SearchQueryError := ⟨.INVALID_QUERY, message⟩

def tooLarge (message : String) : SearchQueryError := ⟨.QUERY_TOO_LARGE, message⟩

/-! ### Tokens -/

/-- A word, and whether it had quotes. -/
structure LexedToken where
  value : String
  quoted : Bool
  deriving DecidableEq

/-- The variables of the lexer. -/
structure Lexing where
  tokens : List LexedToken := []
  value : List Char := []
  quoted : Bool := false
  inQuote : Bool := false
  escaped : Bool := false
  deriving DecidableEq

def tokenTooLong : SearchQueryError := tooLarge "Search terms cannot exceed 200 characters"

/-- `push()`. -/
def Lexing.push (s : Lexing) : Except SearchQueryError Lexing :=
  if s.value = [] then .ok s
  else if MAIL_SEARCH_LIMITS.tokenChars < codeUnits (String.ofList s.value) then .error tokenTooLong
  else .ok { s with
    tokens := s.tokens ++ [⟨String.ofList s.value, s.quoted⟩], value := [], quoted := false }

/-- Read one character. -/
def Lexing.read (s : Lexing) (character : Char) : Except SearchQueryError Lexing :=
  if s.escaped then .ok { s with value := s.value ++ [character], escaped := false }
  else if s.inQuote && character = '\\' then .ok { s with escaped := true }
  else if character = '"' then .ok { s with inQuote := !s.inQuote, quoted := true }
  else if !s.inQuote && isTrimmed character then s.push
  else .ok { s with value := s.value ++ [character] }

/-- What is left to do behind the last character. -/
def Lexing.close (s : Lexing) : Except SearchQueryError (List LexedToken) := do
  require (!(s.inQuote || s.escaped)) (invalid "Search contains an unterminated quote")
  let s ← s.push
  require (s.tokens.length ≤ MAIL_SEARCH_LIMITS.tokens)
    (tooLarge "Search cannot contain more than 32 terms")
  return s.tokens

def lexChars (text : List Char) : Except SearchQueryError (List LexedToken) := do
  let s ← text.foldlM Lexing.read {}
  s.close

def lex (input : String) : Except SearchQueryError (List LexedToken) := lexChars input.toList

/-! ### Filters -/

/-- The operators that the parser knows. -/
inductive Operator
  | «from» | «to» | subject | filename | «in» | is | has | after | before
  deriving DecidableEq

def Operator.text : Operator → String
  | «from» => "from"
  | «to» => "to"
  | subject => "subject"
  | filename => "filename"
  | «in» => "in"
  | is => "is"
  | has => "has"
  | after => "after"
  | before => "before"

def Operator.all : List Operator := [«from», «to», subject, filename, «in», is, has, after, before]

/-- The case of the `switch` that an operator's text selects. -/
def operatorOf (text : String) : Option Operator := Operator.all.find? fun op => op.text = text

/-- `pushBounded(target, value, label)`, with the target that it leaves. -/
def pushBounded (target : List String) (value label : String) :
    Except SearchQueryError (List String) := do
  require (!isBlank value) (invalid (label ++ " requires a value"))
  require (target.length < MAIL_SEARCH_LIMITS.valuesPerFilter)
    (tooLarge (label ++ " cannot be repeated more than 8 times"))
  return target ++ [trim value]

/-- `/^\d{4}-\d{2}-\d{2}$/` -/
def isDateText (value : String) : Bool :=
  match value.toList with
  | [y₁, y₂, y₃, y₄, '-', m₁, m₂, '-', d₁, d₂] =>
      [y₁, y₂, y₃, y₄, m₁, m₂, d₁, d₂].all fun c => '0' ≤ c && c ≤ '9'
  | _ => false

/-- The start of a day. A date that does not exist is another date in the text of its time, or has
none, so that only the texts that `toISOString` gives back are left. -/
def dateAtUtcStart (value operator : String) : Except SearchQueryError String := do
  require (isDateText value) (invalid (operator ++ " requires a date in YYYY-MM-DD format"))
  let text := value ++ "T00:00:00.000Z"
  require (isCanonicalUtcTimestamp text) (invalid (operator ++ " requires a valid calendar date"))
  return text

/-- What the tokens have said so far. -/
structure Parsing where
  terms : List String := []
  phrases : List String := []
  «from» : List String := []
  «to» : List String := []
  subject : List String := []
  filename : List String := []
  folder : List String := []
  is_read : Option Bool := none
  is_starred : Option Bool := none
  has_attachment : Option Bool := none
  date_start : Option String := none
  date_end : Option String := none
  deriving DecidableEq

def bothRead : SearchQueryError := invalid "Search cannot be both read and unread"

def bothStarred : SearchQueryError := invalid "Search cannot be both starred and unstarred"

/-- The flag of an `is:` filter, which may be repeated but not contradicted. -/
def setFlag (flag : Option Bool) (next : Bool) (contradiction : SearchQueryError) :
    Except SearchQueryError (Option Bool) :=
  if flag = some (!next) then .error contradiction else .ok (some next)

/-- The later of a date so far and another. -/
def later (date : Option String) (next : String) : String :=
  match date with
  | some date => if jsLt date next then next else date
  | none => next

/-- The earlier of a date so far and another. -/
def earlier (date : Option String) (next : String) : String :=
  match date with
  | some date => if jsLt next date then next else date
  | none => next

variable (toLowerCase : String → String)

/-- The operator of a token in lower case, and its value. A token without a colon, or with one at
its start, has no operator. -/
def splitOperator (text : String) : String × String :=
  let before := text.toList.takeWhile (· ≠ ':')
  if before ≠ [] ∧ before.length < text.toList.length then
    (toLowerCase (String.ofList before), String.ofList (text.toList.drop (before.length + 1)))
  else ("", text)

/-- `is:` -/
def parseIs (p : Parsing) (value : String) : Except SearchQueryError Parsing :=
  let normalized := toLowerCase value
  if value = "" then .error (invalid "is: requires a value")
  else if normalized = "read" ∨ normalized = "unread" then do
    let is_read ← setFlag p.is_read (normalized = "read") bothRead
    return { p with is_read }
  else if normalized = "starred" ∨ normalized = "unstarred" then do
    let is_starred ← setFlag p.is_starred (normalized = "starred") bothStarred
    return { p with is_starred }
  else .error (invalid ("Unsupported is: filter \"" ++ value ++ "\""))

/-- One token of the query. -/
def parseToken (p : Parsing) (token : LexedToken) : Except SearchQueryError Parsing :=
  let (operator, value) := splitOperator toLowerCase token.value
  match operatorOf operator with
  | some .«from» => do
      let «from» ← pushBounded p.«from» value "from:"
      return { p with «from» }
  | some .«to» => do
      let «to» ← pushBounded p.«to» value "to:"
      return { p with «to» }
  | some .subject => do
      let subject ← pushBounded p.subject value "subject:"
      return { p with subject }
  | some .filename => do
      let filename ← pushBounded p.filename value "filename:"
      return { p with filename }
  | some .«in» => do
      let folder ← pushBounded p.folder (toLowerCase value) "in:"
      return { p with folder }
  | some .is => parseIs toLowerCase p value
  | some .has => do
      require (toLowerCase value = "attachment")
        (invalid ("Unsupported has: filter \"" ++ value ++ "\""))
      return { p with has_attachment := some true }
  | some .after => do
      let next ← dateAtUtcStart value "after:"
      return { p with date_start := some (later p.date_start next) }
  | some .before => do
      let next ← dateAtUtcStart value "before:"
      return { p with date_end := some (earlier p.date_end next) }
  | none => do
      require (!(value = "" && operator ≠ "")) (invalid (operator ++ ": requires a value"))
      if token.quoted then return { p with phrases := p.phrases ++ [token.value] }
      else return { p with terms := p.terms ++ [token.value] }

/-! ### Queries -/

/-- What a query asks for. -/
structure ParsedSearch where
  query : String
  terms : List String
  phrases : List String
  «from» : Option (List String)
  «to» : Option (List String)
  subject : Option (List String)
  filename : Option (List String)
  folder : Option (List String)
  is_read : Option Bool
  is_starred : Option Bool
  has_attachment : Option Bool
  date_start : Option String
  date_end : Option String
  deriving DecidableEq

/-- A repeated filter is set when it has values. -/
def given (values : List String) : Option (List String) :=
  if values = [] then none else some values

def Parsing.parsed (p : Parsing) (query : String) : ParsedSearch where
  query
  terms := p.terms
  phrases := p.phrases
  «from» := given p.«from»
  «to» := given p.«to»
  subject := given p.subject
  filename := given p.filename
  folder := given p.folder
  is_read := p.is_read
  is_starred := p.is_starred
  has_attachment := p.has_attachment
  date_start := p.date_start
  date_end := p.date_end

def emptyRange : SearchQueryError := invalid "after: must be earlier than before:"

/-- The range of dates is not empty. -/
def Parsing.rangeOk (p : Parsing) : Bool :=
  match p.date_start, p.date_end with
  | some start, some stop => !jsLe stop start
  | _, _ => true

/-- Parse the complete user-entered search grammar. -/
def parseSearchQuery (input : String) : Except SearchQueryError ParsedSearch := do
  let query := trim input
  require (codeUnits query ≤ MAIL_SEARCH_LIMITS.queryChars)
    (tooLarge "Search cannot exceed 500 characters")
  let tokens ← lex query
  let p ← tokens.foldlM (parseToken toLowerCase) {}
  require p.rangeOk emptyRange
  return p.parsed query

end MailPortal.Search
