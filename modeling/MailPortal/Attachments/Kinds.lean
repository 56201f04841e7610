import MailPortal.Lib.Sql
import MailPortal.Lib.Words
import MailPortal.Platform.JavaScript

/-!
# Attachment Kinds

An attachment is of the kind that its MIME type names, or else of the kind that the extension of its
filename names. There are two classifiers, one in JavaScript and one as an SQL expression. The first
trims all white space and lowers the case of all letters, the second trims spaces and lowers ASCII.

Main results:

* `classify_eq`, `kindSql_eq`: both look for the first kind with a value, of MIME types and then of
  extensions.
* `kindSql_partition`: in SQL each row is of exactly one kind.
-/

namespace MailPortal.Attachments

open Words

inductive AttachmentKind
  | image
  | pdf
  | document
  | spreadsheet
  | presentation
  | archive
  | other
  deriving DecidableEq

variable {byKind : AttachmentKind → List String}

def ATTACHMENT_KINDS : List AttachmentKind :=
  [.image, .pdf, .document, .spreadsheet, .presentation, .archive, .other]

/-- The text that stands for a kind. -/
def AttachmentKind.text : AttachmentKind → String
  | image => "image"
  | pdf => "pdf"
  | document => "document"
  | spreadsheet => "spreadsheet"
  | presentation => "presentation"
  | archive => "archive"
  | other => "other"

def MIME_BY_KIND : AttachmentKind → List String
  | .image =>
    ["image/avif", "image/bmp", "image/gif", "image/heic", "image/heif", "image/jpeg", "image/png",
      "image/svg+xml", "image/tiff", "image/webp"]
  | .pdf => ["application/pdf"]
  | .document =>
    ["application/msword", "application/rtf", "application/vnd.oasis.opendocument.text",
      "application/vnd.openxmlformats-officedocument.wordprocessingml.document", "text/plain",
      "text/rtf"]
  | .spreadsheet =>
    ["application/vnd.ms-excel", "application/vnd.oasis.opendocument.spreadsheet",
      "application/vnd.openxmlformats-officedocument.spreadsheetml.sheet", "text/csv"]
  | .presentation =>
    ["application/vnd.ms-powerpoint", "application/vnd.oasis.opendocument.presentation",
      "application/vnd.openxmlformats-officedocument.presentationml.presentation"]
  | .archive =>
    ["application/gzip", "application/vnd.rar", "application/x-7z-compressed",
      "application/x-bzip2", "application/x-rar-compressed", "application/x-tar",
      "application/zip"]
  | .other => []

def EXTENSIONS_BY_KIND : AttachmentKind → List String
  | .image =>
    ["avif", "bmp", "gif", "heic", "heif", "jpeg", "jpg", "png", "svg", "tif", "tiff", "webp"]
  | .pdf => ["pdf"]
  | .document => ["doc", "docx", "odt", "rtf", "txt"]
  | .spreadsheet => ["csv", "ods", "xls", "xlsx"]
  | .presentation => ["odp", "ppt", "pptx"]
  | .archive => ["7z", "bz2", "gz", "rar", "tar", "tgz", "zip"]
  | .other => []

/-! ### In JavaScript -/

section JavaScript

variable (lowerCase : LowerCase)

/-- `toLowerCase()` -/
def toLowerCase (value : String) : String := String.ofList (lowerCase.lower value.toList)

/-- `split(";", 1)[0]` -/
def beforeSemicolon (value : String) : String := String.ofList (value.toList.takeWhile (· ≠ ';'))

def baseMime (value : String) : String := toLowerCase lowerCase (trim (beforeSemicolon value))

/-- `[a-z0-9]` -/
def isExtensionChar (c : Char) : Bool := ('a' ≤ c && c ≤ 'z') || ('0' ≤ c && c ≤ '9')

/-- What `/\.([a-z0-9]+)$/` captures, or nothing. -/
def matchExtension (text : List Char) : List Char :=
  let ext := (text.reverse.takeWhile isExtensionChar).reverse
  if ext ≠ [] ∧ (text.reverse.dropWhile isExtensionChar).head? = some '.' then ext else []

def extension (filename : String) : String :=
  String.ofList (matchExtension (toLowerCase lowerCase (trim filename)).toList)

/-- The first kind but `other` that has the value in its list. -/
def firstKind (byKind : AttachmentKind → List String) (value : String) : Option AttachmentKind :=
  ATTACHMENT_KINDS.find? fun kind => kind ≠ .other && (byKind kind).contains value

def classifyMailboxAttachment (filename mimetype : String) : AttachmentKind :=
  match firstKind MIME_BY_KIND (baseMime lowerCase mimetype) with
  | some kind => kind
  | none =>
    match firstKind EXTENSIONS_BY_KIND (extension lowerCase filename) with
    | some kind => kind
    | none => .other

end JavaScript

/-! ### In SQL -/

/-- The columns of a row that the expression reads. -/
structure AttachmentRow where
  filename : Option String
  mimetype : Option String
  deriving DecidableEq

/-- `lower(trim(CASE WHEN instr(...) > 0 THEN substr(...) ELSE ... END))` -/
def mimeSql (row : AttachmentRow) : String :=
  let mimetype := row.mimetype.getD ""
  SqlText.lower (SqlText.trim
    (if SqlText.instr mimetype ";" > 0 then
      SqlText.substr mimetype 1 (SqlText.instr mimetype ";" - 1)
    else mimetype))

/-- `lower(trim(COALESCE(a.filename, '')))` -/
def filenameSql (row : AttachmentRow) : String :=
  SqlText.lower (SqlText.trim (row.filename.getD ""))

def mailboxAttachmentKindSql (row : AttachmentRow) : String :=
  let kinds := ATTACHMENT_KINDS.filter (· ≠ .other)
  let mimeClauses := kinds.map fun kind =>
    (Sql.anyOf ((MIME_BY_KIND kind).map fun value => Sql.eq (some (mimeSql row)) (some value)),
      kind.text)
  let extensionClauses := kinds.map fun kind =>
    (Sql.anyOf ((EXTENSIONS_BY_KIND kind).map fun value =>
      some (SqlText.likeUnescaped (filenameSql row) ("%." ++ value))), kind.text)
  Sql.caseWhen (mimeClauses ++ extensionClauses) "other"

/-! ### Both look for the first kind with a value -/

/-- The first kind that has a value of a condition. -/
def kindWhere (byKind : AttachmentKind → List String) (p : String → Bool) : Option AttachmentKind :=
  ATTACHMENT_KINDS.find? fun kind => (byKind kind).any p

theorem firstKind_eq (hother : byKind .other = []) (value : String) :
    firstKind byKind value = kindWhere byKind fun v => v = value := by
  refine congrArg (List.find? · ATTACHMENT_KINDS) (funext fun kind => ?_)
  by_cases hkind : kind = .other
  · rw [hkind, hother]
    rfl
  · rw [Bool.eq_iff_iff]
    simp [hkind]

theorem classify_eq (lowerCase : LowerCase) (filename mimetype : String) :
    classifyMailboxAttachment lowerCase filename mimetype =
      ((kindWhere MIME_BY_KIND fun v => v = baseMime lowerCase mimetype).or
        (kindWhere EXTENSIONS_BY_KIND fun v => v = extension lowerCase filename)).getD .other := by
  rw [classifyMailboxAttachment, firstKind_eq rfl, firstKind_eq rfl]
  cases kindWhere MIME_BY_KIND fun v => v = baseMime lowerCase mimetype with
  | some kind => rfl
  | none => cases kindWhere EXTENSIONS_BY_KIND fun v => v = extension lowerCase filename <;> rfl

/-- A search among the kinds but `other` is one among all when `other` has no values. -/
theorem find_kinds (hother : byKind .other = []) (p : String → Bool) :
    ((ATTACHMENT_KINDS.filter (· ≠ .other)).find? fun kind => (byKind kind).any p) =
      kindWhere byKind p := by
  rw [kindWhere, List.find?_filter]
  refine congrArg (List.find? · ATTACHMENT_KINDS) (funext fun kind => ?_)
  by_cases hkind : kind = .other
  · simp [hkind, hother]
  · simp only [ne_eq, hkind, not_false_eq_true, decide_true, true_and, Bool.decide_eq_true]

theorem kindSql_eq (row : AttachmentRow) :
    mailboxAttachmentKindSql row =
      (((kindWhere MIME_BY_KIND fun v => v = mimeSql row).or
        (kindWhere EXTENSIONS_BY_KIND fun v =>
          SqlText.likeUnescaped (filenameSql row) ("%." ++ v))).getD .other).text := by
  have hmime : ∀ kind, Sql.holds (Sql.anyOf ((MIME_BY_KIND kind).map fun value =>
      Sql.eq (some (mimeSql row)) (some value))) =
        (MIME_BY_KIND kind).any fun v => v = mimeSql row := by
    intro kind
    rw [Bool.eq_iff_iff, Sql.holds_anyOf, List.any_eq_true]
    simp only [List.mem_map, exists_exists_and_eq_and, Sql.holds_eq_some, decide_eq_true_eq]
    exact exists_congr fun v => and_congr Iff.rfl eq_comm
  have hextension : ∀ kind, Sql.holds (Sql.anyOf ((EXTENSIONS_BY_KIND kind).map fun value =>
      some (SqlText.likeUnescaped (filenameSql row) ("%." ++ value)))) =
        (EXTENSIONS_BY_KIND kind).any fun v =>
          SqlText.likeUnescaped (filenameSql row) ("%." ++ v) := by
    intro kind
    rw [Bool.eq_iff_iff, Sql.holds_anyOf, List.any_eq_true]
    simp only [List.mem_map, exists_exists_and_eq_and, Sql.holds, Option.some.injEq,
      decide_eq_true_eq]
  have hlast := Sql.caseWhen_map_append (ATTACHMENT_KINDS.filter (· ≠ .other))
    (fun kind => Sql.anyOf ((EXTENSIONS_BY_KIND kind).map fun value =>
      some (SqlText.likeUnescaped (filenameSql row) ("%." ++ value))))
    AttachmentKind.text [] "other"
  rw [List.append_nil] at hlast
  rw [mailboxAttachmentKindSql, Sql.caseWhen_map_append, hlast]
  simp only [hmime, hextension]
  rw [find_kinds rfl, find_kinds rfl]
  cases kindWhere MIME_BY_KIND fun v => v = mimeSql row with
  | some kind => rfl
  | none =>
    cases kindWhere EXTENSIONS_BY_KIND fun v =>
      SqlText.likeUnescaped (filenameSql row) ("%." ++ v) <;> rfl

theorem AttachmentKind.text_inj {a b : AttachmentKind} : a.text = b.text ↔ a = b := by
  cases a <;> cases b <;> decide

/-- **Each row is of exactly one kind** in SQL. -/
theorem kindSql_partition (row : AttachmentRow) :
    ∃! kind : AttachmentKind, mailboxAttachmentKindSql row = kind.text := by
  rw [kindSql_eq]
  exact ⟨_, rfl, fun kind h => (AttachmentKind.text_inj.mp h).symm⟩

end MailPortal.Attachments
