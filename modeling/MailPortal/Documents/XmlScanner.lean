import MailPortal.Documents.Reading
import MailPortal.Lib.Replace
import MailPortal.Lib.Xml
import MailPortal.Platform.JavaScript

/-!
# Scanning XML

The parts of a document package are scanned for the tags that begin elements. An offset into a text
is kept as the text that is left from there. Texts are lists of code points, as a `TextDecoder`
returns them; what the scanner looks for is of ASCII, except for white space.
-/

namespace MailPortal.Documents

open Failure

/-! ### Searching -/

/-- `indexOf(word)`: what is before the first place of a word, and what is behind the word there. -/
def breakOn (word : List Char) : List Char → Option (List Char × List Char)
  | [] => none
  | c :: cs =>
    if word.isPrefixOf (c :: cs) then some ([], (c :: cs).drop word.length)
    else (breakOn word cs).map fun (before, behind) => (c :: before, behind)

/-- `/<!\s*(?:doctype|entity)/iu`, at the start of a text. -/
def declarationAt (text : List Char) : Bool :=
  ['<', '!'].isPrefixOf text &&
    let word := ((text.drop 2).dropWhile isTrimmed).map Char.toLower
    ("doctype".toList.isPrefixOf word || "entity".toList.isPrefixOf word)

/-- The pattern, anywhere. -/
def hasDeclaration : List Char → Bool
  | [] => false
  | c :: cs => declarationAt (c :: cs) || hasDeclaration cs

/-! ### References -/

/-- What stands between `&` and `;`. -/
inductive Entity
  | decimal (digits : List Char)
  | hexadecimal (digits : List Char)
  | named (name : List Char)
  deriving DecidableEq

/-- A run of a class that is not empty, in front of a semicolon. -/
def runBefore (isClass : Char → Bool) (text : List Char) : Option (List Char) :=
  let run := text.takeWhile isClass
  if run ≠ [] ∧ (text.drop run.length).head? = some ';' then some run else none

def isLetter (c : Char) : Bool := ('a' ≤ c && c ≤ 'z') || ('A' ≤ c && c ≤ 'Z')

def entities : List (List Char × Char) :=
  [("amp".toList, '&'), ("quot".toList, '"'), ("apos".toList, Xml.APOSTROPHE), ("lt".toList, '<'),
    ("gt".toList, '>')]

/-- `entities.get(name)` -/
def entityNamed (name : List Char) : Option Char :=
  (entities.find? fun entity => entity.1 = name).map Prod.snd

/-- `/&(?:#(\d+)|#x([0-9a-f]+)|(amp|quot|apos|lt|gt));/iu`, at the start of a text: the entity, and
the number of characters behind the `&`. A name that only the case folding of Unicode would match is
refused in either case. -/
def entityAt : List Char → Option (Entity × ℕ)
  | '&' :: '#' :: text =>
    match runBefore Xml.isDecimal text with
    | some digits => some (.decimal digits, digits.length + 2)
    | none =>
      match text with
      | x :: text =>
        if x = 'x' ∨ x = 'X' then
          (runBefore Xml.isHexadecimal text).map fun digits =>
            (.hexadecimal digits, digits.length + 3)
        else none
      | [] => none
  | '&' :: text =>
    (runBefore isLetter text).bind fun name =>
      if (entityNamed (name.map Char.toLower)).isSome then some (.named name, name.length + 1)
      else none
  | _ => none

/-- `Number.isSafeInteger(codePoint)` and the ranges. -/
def decodeCodePoint (codePoint : ℕ) : Reader Char := do
  failIf (codePoint > MAX_SAFE_INTEGER ∨ codePoint = 0 ∨ codePoint > 0x10ffff ∨
    (0xd800 ≤ codePoint ∧ codePoint ≤ 0xdfff)) .invalid_container
  return Char.ofNat codePoint

def decodeEntity : Entity → Reader Char
  | .named name => orThrow (entityNamed (name.map Char.toLower)) (.extraction .invalid_container)
  | .decimal digits => decodeCodePoint (Xml.number 10 digits)
  | .hexadecimal digits => decodeCodePoint (Xml.number 16 digits)

/-- `value.replace(entityPattern, …)`, with a text of which the next `skip` characters belong to a
match. -/
def replaceEntities : (skip : ℕ) → List Char → Reader (List Char)
  | _, [] => .ok []
  | skip + 1, _ :: rest => replaceEntities skip rest
  | 0, c :: rest =>
    match entityAt (c :: rest) with
    | some (entity, more) => do
      let decoded ← decodeEntity entity
      let behind ← replaceEntities more rest
      return decoded :: behind
    | none => do
      let behind ← replaceEntities 0 rest
      return c :: behind

def decodeXmlEntities (value : List Char) : Reader (List Char) := do
  let removed :=
    Replace.replaceAll (fun text => (entityAt text).map fun found => ([], found.2)) value
  failIf ('&' ∈ removed) .invalid_container
  replaceEntities 0 value

/-! ### Tags -/

/-- A tag that opens. -/
structure XmlElement where
  name : List Char
  attributes : List (List Char × List Char)
  deriving DecidableEq

/-- The loop over `close`: what is before the `>` that is outside quotes, and what is behind it. -/
def scanTag : (quote : Option Char) → List Char → Option (List Char × List Char)
  | _, [] => none
  | some quote, c :: cs =>
    (scanTag (if c = quote then none else some quote) cs).map fun (raw, rest) => (c :: raw, rest)
  | none, c :: cs =>
    if c = '"' ∨ c = Xml.APOSTROPHE then
      (scanTag (some c) cs).map fun (raw, rest) => (c :: raw, rest)
    else if c = '>' then some ([], cs)
    else (scanTag none cs).map fun (raw, rest) => (c :: raw, rest)

/-- `.trim()` -/
def trimChars (cs : List Char) : List Char :=
  ((cs.dropWhile isTrimmed).reverse.dropWhile isTrimmed).reverse

/-- `.replace(/\/$/u, "")` -/
def dropSlash (cs : List Char) : List Char := if cs.getLast? = some '/' then cs.dropLast else cs

/-- `/[A-Za-z_:]/` -/
def isAttributeStart (c : Char) : Bool := isLetter c || c = '_' || c = ':'

/-- `/[A-Za-z0-9_.:-]/` -/
def isAttributeChar (c : Char) : Bool := isAttributeStart c || Xml.isDecimal c || c = '.' || c = '-'

/-- `/^([A-Za-z_:][A-Za-z0-9_.:-]*)\s*=\s*(["'])/u`: the name, the quote and what is behind it. -/
def attributeAt : List Char → Option (List Char × Char × List Char)
  | [] => none
  | c :: cs =>
    if isAttributeStart c then
      let more := cs.takeWhile isAttributeChar
      match (cs.drop more.length).dropWhile isTrimmed with
      | '=' :: behind =>
        match behind.dropWhile isTrimmed with
        | quote :: behind =>
          if quote = '"' ∨ quote = Xml.APOSTROPHE then some (c :: more, quote, behind) else none
        | [] => none
      | _ => none
    else none

/-- The attributes so far, and what is left of the tag. -/
structure Attributes where
  attributes : List (List Char × List Char)
  rest : List Char

section Scan

variable (toLowerCase : List Char → List Char)

/-- `name.split(":").at(-1)!.toLowerCase()` -/
def localLower (name : List Char) : List Char := toLowerCase (Xml.localName name)

/-- A pass of the loop over the attributes. -/
def nextAttribute (s : Attributes) : Reader Attributes :=
  let rest := s.rest.dropWhile isTrimmed
  if rest = [] then .ok { s with rest := [] }
  else do
    let (name, quote, behind) ← orThrow (attributeAt rest) (.extraction .invalid_container)
    let attributeName := localLower toLowerCase name
    let (value, rest) ← orThrow (breakOn [quote] behind) (.extraction .invalid_container)
    failIf (s.attributes.any fun known => known.1 = attributeName) .invalid_container
    let decoded ← decodeXmlEntities value
    return ⟨s.attributes ++ [(attributeName, decoded)], rest⟩

def parseAttributes (raw : List Char) : Reader (List (List Char × List Char)) := do
  let s ← Loop.whileLoop .stuck (fun s : Attributes => !s.rest.isEmpty) (nextAttribute toLowerCase)
    (raw.length + 1) ⟨[], raw⟩
  return s.attributes

/-- The element of a tag. -/
def parseTag (text : List Char) : Reader XmlElement := do
  let raw := trimChars (dropSlash (trimChars text))
  let nameMatch := raw.takeWhile fun c => !isTrimmed c && c ≠ '/' && c ≠ '>'
  failIf (nameMatch = []) .invalid_container
  let attributes ← parseAttributes toLowerCase (raw.drop nameMatch.length)
  return ⟨localLower toLowerCase nameMatch, attributes⟩

/-- The elements so far, and the text that is left. -/
structure Scanned where
  elements : List XmlElement
  rest : List Char

/-- The text behind a word, when there is one. -/
def skipPast (word text : List Char) : Reader (List Char) :=
  orThrow ((breakOn word text).map Prod.snd) (.extraction .invalid_container)

/-- A pass of the loop over the text. -/
def nextMarkup (s : Scanned) : Reader Scanned :=
  match breakOn ['<'] s.rest with
  | none => .ok { s with rest := [] }
  | some (_, behind) =>
    if ['!', '-', '-'].isPrefixOf behind then do
      let rest ← skipPast ['-', '-', '>'] (behind.drop 3)
      return { s with rest := rest }
    else if ['?'].isPrefixOf behind then do
      let rest ← skipPast ['?', '>'] (behind.drop 1)
      return { s with rest := rest }
    else if ['/'].isPrefixOf behind then do
      let rest ← skipPast ['>'] (behind.drop 1)
      return { s with rest := rest }
    else if ['!'].isPrefixOf behind then failure .invalid_container
    else do
      let (text, rest) ← orThrow (scanTag none behind) (.extraction .invalid_container)
      let element ← parseTag toLowerCase text
      return ⟨s.elements ++ [element], rest⟩

def parseXmlElements (value : List Char) : Reader (List XmlElement) := do
  failIf (hasDeclaration value = true) .active_content
  let s ← Loop.whileLoop .stuck (fun s : Scanned => !s.rest.isEmpty) (nextMarkup toLowerCase)
    (value.length + 1) ⟨[], value⟩
  return s.elements

end Scan

end MailPortal.Documents
