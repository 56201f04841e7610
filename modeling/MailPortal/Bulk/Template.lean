import MailPortal.Platform.JavaScript

/-!
# Bulk Templates

A bulk message is a template with placeholders, one rendering for each recipient. A placeholder is
`\{\{\s*([\w.-]+)\s*\}\}`, and what it names is looked up as a property of the row: a name that is
no column may still be a property that every object has, which has a text but is none. To escape
such a value throws, so a row whose HTML throws is not admitted.

Main results:

* `renderBulkTemplate_text` : a rendering that does not escape never throws.
* `renders_of_admitted` : nor does one that escapes, of an admitted row.
-/

namespace MailPortal.Bulk

/-- A recipient's columns. -/
abbrev BulkRecipient := List (String × String)

/-- The columns of a row that are named `email`. -/
def BulkRecipient.email (row : BulkRecipient) : String := (row.lookup "email").getD ""

/-- What the host and the platform decide. `inherited` is the text of a property that every object
has; `inlineImageError` is `validateResolvedInlineImages` on an HTML text and the filenames of its
attachments, which are none of them inline. -/
structure BulkHost where
  toLowerCase : String → String
  inherited : String → Option String
  inlineImageError : String → List String → Option String

variable (host : BulkHost)

/-! ### Placeholders -/

/-- `[\w.-]` -/
def isNameChar (c : Char) : Bool := c.isAlphanum || c ∈ ['_', '.', '-']

/-- The name of a placeholder at the front of a text, and how long the placeholder is. -/
def matchPlaceholder : List Char → Option (String × ℕ)
  | '\x7b' :: '\x7b' :: rest =>
      let body := rest.dropWhile isTrimmed
      match body.takeWhile isNameChar, (body.dropWhile isNameChar).dropWhile isTrimmed with
      | c :: name, '\x7d' :: '\x7d' :: after =>
          some (String.ofList (c :: name), rest.length + 2 - after.length)
      | _, _ => none
  | _ => none

/-- Each placeholder is replaced by its value, from the left; a value may throw. `skip` counts the
characters that are left of a placeholder that was replaced. -/
def replacePlaceholders (value : String → Option String) : ℕ → List Char → Option (List Char)
  | _, [] => some []
  | skip + 1, _ :: cs => replacePlaceholders value skip cs
  | 0, c :: cs =>
      match matchPlaceholder (c :: cs) with
      | some (name, length) => do
          let text ← value name
          let rest ← replacePlaceholders value (length - 1) cs
          some (text.toList ++ rest)
      | none => (replacePlaceholders value 0 cs).map (c :: ·)

/-! ### Rendering -/

def escapeChar : Char → List Char
  | '&' => "&amp;".toList
  | '<' => "&lt;".toList
  | '>' => "&gt;".toList
  | '\x22' => "&quot;".toList
  | '\x27' => "&#39;".toList
  | c => [c]

def escapeHtml (text : String) : String := String.ofList (text.toList.flatMap escapeChar)

/-- What a placeholder stands for. A property that every object has is no text, and throws when it
is escaped. -/
def placeholderValue (row : BulkRecipient) (escapeValues : Bool) (name : String) :
    Option String :=
  match row.lookup name with
  | some value => some (if escapeValues then escapeHtml value else value)
  | none =>
      match host.inherited name with
      | some text => if escapeValues then none else some text
      | none => some ""

/-- `none` when it throws. -/
def renderBulkTemplate (template : String) (row : BulkRecipient) (escapeValues : Bool) :
    Option String :=
  (replacePlaceholders (placeholderValue host row escapeValues) 0 template.toList).map String.ofList

/-- The admission's test of the HTML of every recipient; `none` when it throws, else the first
error. -/
def bulkPersonalizedHtmlValidationError (html : Option String) :
    List BulkRecipient → Option (Option String)
  | [] => some none
  | row :: rows =>
      match html with
      | none => some none
      | some template => do
          let rendered ← renderBulkTemplate host template row true
          match host.inlineImageError rendered [] with
          | some error => some (some error)
          | none => bulkPersonalizedHtmlValidationError html rows

/-! ### What renders -/

variable {host}

theorem replacePlaceholders_isSome {value : String → Option String}
    (h : ∀ name, (value name).isSome) (cs : List Char) :
    ∀ skip, (replacePlaceholders value skip cs).isSome := by
  induction cs with
  | nil =>
      intro skip
      cases skip <;> rfl
  | cons c cs ih =>
      intro skip
      cases skip with
      | succ skip => exact ih skip
      | zero =>
          rw [replacePlaceholders]
          split
          · rename_i name length _
            obtain ⟨text, htext⟩ := Option.isSome_iff_exists.mp (h name)
            obtain ⟨rest, hrest⟩ := Option.isSome_iff_exists.mp (ih (length - 1))
            simp [htext, hrest]
          · rw [Option.isSome_map]
            exact ih 0

/-- **A rendering that does not escape never throws.** -/
theorem renderBulkTemplate_text (template : String) (row : BulkRecipient) :
    ∃ text, renderBulkTemplate host template row false = some text := by
  refine Option.isSome_iff_exists.mp ?_
  rw [renderBulkTemplate, Option.isSome_map]
  refine replacePlaceholders_isSome (fun name => ?_) _ 0
  rw [placeholderValue]
  split
  · rfl
  · split <;> rfl

/-- **The HTML of an admitted row renders.** -/
theorem renders_of_admitted {template : String} {rows : List BulkRecipient}
    (h : bulkPersonalizedHtmlValidationError host (some template) rows = some none)
    {row : BulkRecipient} (hrow : row ∈ rows) :
    ∃ html, renderBulkTemplate host template row true = some html := by
  induction rows with
  | nil => cases hrow
  | cons first rows ih =>
      rw [bulkPersonalizedHtmlValidationError] at h
      obtain ⟨rendered, hrendered, h⟩ := Option.bind_eq_some_iff.mp h
      split at h
      · cases h
      · rcases List.mem_cons.mp hrow with rfl | hrow
        · exact ⟨rendered, hrendered⟩
        · exact ih h hrow

def sampleHost : BulkHost where
  toLowerCase := id
  inherited name := if name = "constructor" then some "function Object()" else none
  inlineImageError _ _ := none

/-- A column that only some rows have, named like a property of every object. -/
example : renderBulkTemplate sampleHost
    "Dear \x7b\x7b name \x7d\x7d, \x7b\x7bconstructor\x7d\x7d" [("name", "<Ann>")] false =
      some "Dear <Ann>, function Object()" := by
  decide +kernel

end MailPortal.Bulk
