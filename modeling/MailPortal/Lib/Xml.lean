import Mathlib.Data.List.Infix

/-!
# XML as a Text

The markup of a document, in the order in which it is written: character data, comments, processing
instructions, end tags, and the tags that begin elements, with the references in the values of their
attributes. Document type declarations and `CDATA` sections are not part of it, and that tags match
is not asked of it, so that it has every well-formed document without them.

Main results:

* `Name.mem` : what a character of a name is not.
-/

namespace Xml

/-! ### Characters -/

/-- `S` -/
def isSpace (c : Char) : Bool := c = ' ' || c = '\t' || c = '\r' || c = '\n'

/-- `Char`, by its code point. -/
def IsCharacter (n : ℕ) : Prop :=
  n = 0x9 ∨ n = 0xA ∨ n = 0xD ∨ (0x20 ≤ n ∧ n ≤ 0xD7FF) ∨ (0xE000 ≤ n ∧ n ≤ 0xFFFD) ∨
    (0x10000 ≤ n ∧ n ≤ 0x10FFFF)

def isDecimal (c : Char) : Bool := '0' ≤ c && c ≤ '9'

def isHexadecimal (c : Char) : Bool :=
  isDecimal c || ('a' ≤ c && c ≤ 'f') || ('A' ≤ c && c ≤ 'F')

/-- The value of a digit. -/
def digitValue (c : Char) : ℕ :=
  if c ≤ '9' then c.toNat - 48 else if c ≤ 'F' then c.toNat - 55 else c.toNat - 87

/-- The number that digits spell. -/
def number (base : ℕ) (digits : List Char) : ℕ :=
  digits.foldl (fun n c => base * n + digitValue c) 0

def APOSTROPHE : Char := Char.ofNat 39

/-! ### Names -/

/-- A range of code points. -/
def inRange (n : ℕ) (range : ℕ × ℕ) : Bool := range.1 ≤ n && n ≤ range.2

/-- `NameStartChar` -/
def startRanges : List (ℕ × ℕ) :=
  [(0x3A, 0x3A), (0x41, 0x5A), (0x5F, 0x5F), (0x61, 0x7A), (0xC0, 0xD6), (0xD8, 0xF6),
    (0xF8, 0x2FF),
    (0x370, 0x37D), (0x37F, 0x1FFF), (0x200C, 0x200D), (0x2070, 0x218F), (0x2C00, 0x2FEF),
    (0x3001, 0xD7FF), (0xF900, 0xFDCF), (0xFDF0, 0xFFFD), (0x10000, 0xEFFFF)]

/-- What `NameChar` has besides. -/
def moreRanges : List (ℕ × ℕ) :=
  [(0x2D, 0x2E), (0x30, 0x39), (0xB7, 0xB7), (0x300, 0x36F), (0x203F, 0x2040)]

/-- The code points of names. Two that are white space elsewhere, which only the fifth edition of
XML lets into names, are left out. -/
def isStartCode (n : ℕ) : Bool := startRanges.any (inRange n) && n ≠ 0x1680 && n ≠ 0xFEFF

def isNameCode (n : ℕ) : Bool := isStartCode n || moreRanges.any (inRange n)

/-- `Name` -/
structure Name where
  first : Char
  more : List Char
  first_start : isStartCode first.toNat = true
  more_name : ∀ c ∈ more, isNameCode c.toNat = true

def Name.chars (name : Name) : List Char := name.first :: name.more

/-- What stands behind the last colon. -/
def localName (name : List Char) : List Char := (name.splitOn ':').getLast?.getD []

/-! ### Attributes -/

/-- White space, which may be empty. -/
structure Space where
  chars : List Char
  space : ∀ c ∈ chars, isSpace c = true

/-- The mark around a value. -/
inductive Quote
  | double
  | single
  deriving DecidableEq

def Quote.char : Quote → Char
  | double => '"'
  | single => APOSTROPHE

/-- The entities with a name. -/
inductive Predefined
  | amp
  | lt
  | gt
  | quot
  | apos
  deriving DecidableEq

/-- `&name;` or `&#number;` -/
inductive Reference
  | predefined (entity : Predefined)
  | decimal (digits : List Char) (hne : digits ≠ []) (hdigits : ∀ c ∈ digits, isDecimal c = true)
      (hchar : IsCharacter (number 10 digits))
  | hexadecimal (digits : List Char) (hne : digits ≠ [])
      (hdigits : ∀ c ∈ digits, isHexadecimal c = true) (hchar : IsCharacter (number 16 digits))

def Predefined.name : Predefined → List Char
  | amp => ['a', 'm', 'p']
  | lt => ['l', 't']
  | gt => ['g', 't']
  | quot => ['q', 'u', 'o', 't']
  | apos => ['a', 'p', 'o', 's']

def Predefined.char : Predefined → Char
  | amp => '&'
  | lt => '<'
  | gt => '>'
  | quot => '"'
  | apos => APOSTROPHE

def Reference.write : Reference → List Char
  | predefined entity => '&' :: (entity.name ++ [';'])
  | decimal digits _ _ _ => '&' :: '#' :: (digits ++ [';'])
  | hexadecimal digits _ _ _ => '&' :: '#' :: 'x' :: (digits ++ [';'])

/-- What a reference stands for. -/
def Reference.meaning : Reference → Char
  | predefined entity => entity.char
  | decimal digits _ _ _ => Char.ofNat (number 10 digits)
  | hexadecimal digits _ _ _ => Char.ofNat (number 16 digits)

/-- A character of a value. -/
inductive ValuePart (quote : Quote)
  | literal (c : Char) (h : c ≠ '<' ∧ c ≠ '&' ∧ c ≠ quote.char)
  | reference (r : Reference)

section Value

variable {quote : Quote}

def ValuePart.write : ValuePart quote → List Char
  | literal c _ => [c]
  | reference r => r.write

def ValuePart.meaning : ValuePart quote → Char
  | literal c _ => c
  | reference r => r.meaning

end Value

/-- White space, a name, `=` and a value in quotes. -/
structure Attribute where
  space : Space
  space_ne : space.chars ≠ []
  name : Name
  before : Space
  behind : Space
  quote : Quote
  value : List (ValuePart quote)

def Attribute.valueText (a : Attribute) : List Char := a.value.flatMap ValuePart.write

def Attribute.write (a : Attribute) : List Char :=
  a.space.chars ++ (a.name.chars ++ (a.before.chars ++ '=' ::
    (a.behind.chars ++ a.quote.char :: (a.valueText ++ [a.quote.char]))))

def Attribute.meaning (a : Attribute) : List Char := a.value.map ValuePart.meaning

/-! ### Documents -/

/-- A start tag or an empty-element tag. No attribute is given twice. -/
structure Tag where
  name : Name
  attributes : List Attribute
  space : Space
  empty : Bool
  unique : (attributes.map fun a => a.name.chars).Nodup

/-- What stands between `<` and `>`. -/
def Tag.body (t : Tag) : List Char :=
  t.name.chars ++ (t.attributes.flatMap Attribute.write ++ (t.space.chars ++
    if t.empty then ['/'] else []))

/-- A part of a document. -/
inductive Item
  | text (chars : List Char) (h : '<' ∉ chars)
  | comment (chars : List Char) (h : ¬['-', '-'] <:+: chars) (hlast : chars.getLast? ≠ some '-')
  | instruction (chars : List Char) (h : ¬['?', '>'] <:+: chars)
  | endTag (name : Name) (space : Space)
  | tag (t : Tag)

def Item.write : Item → List Char
  | text chars _ => chars
  | comment chars _ _ => '<' :: '!' :: '-' :: '-' :: (chars ++ ['-', '-', '>'])
  | instruction chars _ => '<' :: '?' :: (chars ++ ['?', '>'])
  | endTag name space => '<' :: '/' :: (name.chars ++ (space.chars ++ ['>']))
  | tag t => '<' :: (t.body ++ ['>'])

/-- The text of a document. -/
def write (document : List Item) : List Char := document.flatMap Item.write

/-- The tags that begin elements, in document order. -/
def tags (document : List Item) : List Tag :=
  document.filterMap fun item => match item with
    | .tag t => some t
    | _ => none

/-! ### What characters are not -/

/-- The code points that markup has a use for, and white space. -/
def marks : List ℕ :=
  [0x22, 0x26, 0x27, 0x2F, 0x3C, 0x3D, 0x3E, 0x21, 0x3F, 0x3B, 0x09, 0x0A, 0x0B, 0x0C,
    0x0D, 0x20, 0xA0,
    0x1680, 0x2000, 0x2001, 0x2002, 0x2003, 0x2004, 0x2005, 0x2006, 0x2007, 0x2008, 0x2009, 0x200A,
    0x2028, 0x2029, 0x202F, 0x205F, 0x3000, 0xFEFF]

theorem isNameCode_marks : ∀ n ∈ marks, isNameCode n = false := by decide

theorem isNameCode_of_start {n : ℕ} (h : isStartCode n = true) : isNameCode n = true := by
  rw [isNameCode, h]
  rfl

theorem Name.code {name : Name} {c : Char} (h : c ∈ name.chars) : isNameCode c.toNat = true := by
  rcases List.mem_cons.mp h with rfl | h
  · exact isNameCode_of_start name.first_start
  · exact name.more_name c h

/-- A character of a name is no mark. -/
theorem Name.mem {name : Name} {c : Char} (h : c ∈ name.chars) : c.toNat ∉ marks := fun hmark =>
  absurd (name.code h) (by rw [isNameCode_marks _ hmark]; exact nofun)

end Xml
