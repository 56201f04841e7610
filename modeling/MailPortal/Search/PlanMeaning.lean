import Mathlib.Data.List.DropRight
import MailPortal.Search.PlanBinding

/-!
# What a Search Finds

The two statements of a search select the same mails. These are the mails that are asked for, up to
two filters: the statements compare folders by the lower case of SQLite, which knows the ASCII
letters only, and without the white space around what is asked for, and dates as texts.

What is asked for (`Asked`) is said without statements: every needle occurs in one of the texts of
the mail, and each filter that is given holds. A filter is given by the options, else by the query.
A folder is asked for by its id or its name, as it is written there, up to letter case. Dates are
asked for as instants.

Main results:

* `search_finds` : the mails that are found, and when they are the mails that are asked for.
-/

namespace MailPortal.Search

open Failure Placeholders SqlText

variable {values : List String} {value word : String} {x : Operand Value} {meets : String → Prop}
variable {label text : String} {first : Column} {rest : List Column}

/-! ### What is asked for -/

/-- The word occurs in a text that is there. -/
def OccursIn (word : String) (text : Option String) : Prop := ∃ s ∈ text, Occurs word s

/-- A filter holds for one of its values, or has none. -/
def Given (values : List String) (holds : String → Prop) : Prop :=
  values = [] ∨ ∃ value ∈ values, holds value

/-- The texts that are asked for: of the query, and of the options. -/
def needlesOf (parsed : Option ParsedSearch) (options : MailSearchOptions) : List String :=
  (((parsed.map (·.terms)).getD [] ++ (parsed.map (·.phrases)).getD [] ++
    options.terms.getD [] ++ options.phrases.getD []).map trim).filter (· ≠ "")

/-- The values of a filter: those of the option, else those of the query. -/
def valuesOf (option : Option OneOrMany) (parsed : Option (List String)) : List String :=
  ((filterSource option parsed).map trim).filter (· ≠ "")

/-- The values of the `in:` filters of a query, as they are written. -/
def writtenFolders (toLowerCase : String → String) (query : String) : List String :=
  match lex (trim query) with
  | .ok tokens => tokens.filterMap fun token =>
      let (operator, value) := splitOperator toLowerCase token.value
      if operatorOf operator = some .«in» then some value else none
  | .error _ => []

/-- The folders that are named: by the option, else in the query. A blank value names none. -/
def namedFolders (toLowerCase : String → String) (options : MailSearchOptions) : List String :=
  match options.folder with
  | some value => value.source.filter fun name => !isBlank name
  | none => writtenFolders toLowerCase (options.query.getD "")

variable (tables : SearchTables) (parsed : Option ParsedSearch) (options : MailSearchOptions)
  (e : EmailRow)

/-- Everything that is asked for but the folder and the dates. -/
@[mk_iff]
structure AskedApart : Prop where
  live : e.folder_id ≠ RETIRED_OUTBOUND
  needles : ∀ needle ∈ needlesOf parsed options,
    (∃ text ∈ [e.subject, e.body, e.sender, e.recipient, e.cc, e.bcc], OccursIn needle text) ∨
      ∃ a ∈ tables.attachments, a.email_id = e.id ∧ Occurs needle a.filename
  «from» : Given (valuesOf options.«from» (parsed.bind (·.«from»))) fun value =>
    OccursIn value e.sender
  «to» : Given (valuesOf options.«to» (parsed.bind (·.«to»))) fun value =>
    ∃ text ∈ [e.recipient, e.cc, e.bcc], OccursIn value text
  subject : Given (valuesOf options.subject (parsed.bind (·.subject))) fun value =>
    OccursIn value e.subject
  filename : Given (valuesOf options.filename (parsed.bind (·.filename))) fun value =>
    ∃ a ∈ tables.attachments, a.email_id = e.id ∧ Occurs value a.filename
  label : ∀ label ∈ trimmed options.label_id,
    ∃ l ∈ tables.email_labels, l.email_id = e.id ∧ l.label_id = label
  read : ∀ isRead ∈ options.is_read.or (parsed.bind (·.is_read)),
    e.read = some (if isRead then 1 else 0)
  starred : ∀ isStarred ∈ options.is_starred.or (parsed.bind (·.is_starred)),
    e.starred = some (if isStarred then 1 else 0)
  attached : (options.has_attachment.or (parsed.bind (·.has_attachment))).getD false = true →
    ∃ a ∈ tables.attachments, a.email_id = e.id

/-- The id or the name of the mail's folder is one of the values, up to a case. -/
def InFolder (lowerCase : String → String) (values : List String) : Prop :=
  Given values fun value => ∃ f ∈ tables.folders, f.id = e.folder_id ∧
    (lowerCase f.id = lowerCase value ∨ lowerCase f.name = lowerCase value)

/-- The mail's folder is one that is named. -/
def FolderAsked (toLowerCase : String → String) : Prop :=
  InFolder tables e toLowerCase (namedFolders toLowerCase options)

/-- The mail's folder is one that the statements look for. -/
def FolderFound : Prop :=
  InFolder tables e lower (valuesOf options.folder (parsed.bind (·.folder)))

/-- A bound that is given and the date of the mail are in an order. -/
def DateMeets (meets : String → String → Prop) (bound : Option String) : Prop :=
  ∀ limit ∈ bound, limit ≠ "" → ∃ date ∈ e.date, meets limit date

/-- The instants that two texts stand for are in an order. -/
def InstantsMeet (host : HostRuntime) (meets : ℤ → ℤ → Prop) (limit date : String) : Prop :=
  ∃ l ∈ host.dateParse limit, ∃ d ∈ host.dateParse date, meets l d

/-- The instant of the mail is one of those that are asked for. -/
def DatesAsked (host : HostRuntime) : Prop :=
  DateMeets e (InstantsMeet host (· ≤ ·)) (options.date_start.or (parsed.bind (·.date_start))) ∧
    DateMeets e (InstantsMeet host (· > ·)) (options.date_end.or (parsed.bind (·.date_end)))

/-- The text of the mail's date is one of those that the statements look for. -/
def DatesFound : Prop :=
  DateMeets e (· ≤ ·) (options.date_start.or (parsed.bind (·.date_start))) ∧
    DateMeets e (· > ·) (options.date_end.or (parsed.bind (·.date_end)))

/-- The mail is asked for. -/
def Asked (toLowerCase : String → String) (host : HostRuntime) : Prop :=
  AskedApart tables parsed options e ∧ FolderAsked tables options e toLowerCase ∧
    DatesAsked parsed options e host

instance (word : String) (text : Option String) : Decidable (OccursIn word text) :=
  inferInstanceAs (Decidable (∃ s ∈ text, Occurs word s))

instance (values : List String) (meets : String → Prop) [DecidablePred meets] :
    Decidable (Given values meets) :=
  inferInstanceAs (Decidable (values = [] ∨ ∃ value ∈ values, meets value))

instance : Decidable (AskedApart tables parsed options e) :=
  decidable_of_iff _ (askedApart_iff tables parsed options e).symm

instance (lowerCase : String → String) (values : List String) :
    Decidable (InFolder tables e lowerCase values) :=
  inferInstanceAs (Decidable (Given _ _))

instance (toLowerCase : String → String) : Decidable (FolderAsked tables options e toLowerCase) :=
  inferInstanceAs (Decidable (InFolder _ _ _ _))

instance : Decidable (FolderFound tables parsed options e) :=
  inferInstanceAs (Decidable (InFolder _ _ _ _))

instance (meets : String → String → Prop) [DecidableRel meets] (bound : Option String) :
    Decidable (DateMeets e meets bound) :=
  inferInstanceAs (Decidable (∀ limit ∈ bound, limit ≠ "" → ∃ date ∈ e.date, meets limit date))

instance (host : HostRuntime) (meets : ℤ → ℤ → Prop) [DecidableRel meets] :
    DecidableRel (InstantsMeet host meets) := fun limit date =>
  inferInstanceAs (Decidable (∃ l ∈ host.dateParse limit, ∃ d ∈ host.dateParse date, meets l d))

instance (host : HostRuntime) : Decidable (DatesAsked parsed options e host) :=
  inferInstanceAs (Decidable (_ ∧ _))

instance : Decidable (DatesFound parsed options e) :=
  inferInstanceAs (Decidable (_ ∧ _))

instance (toLowerCase : String → String) (host : HostRuntime) :
    Decidable (Asked tables parsed options e toLowerCase host) :=
  inferInstanceAs (Decidable (_ ∧ _ ∧ _))

/-! ### What is normalized -/

variable {tables parsed options e} {toLowerCase : String → String} {host : HostRuntime}
  {search : NormalizedSearch}

theorem length_eraseDups_le (values : List String) : values.eraseDups.length ≤ values.length := by
  induction hn : values.length using Nat.strongRecOn generalizing values with
  | ind n ih =>
      cases values with
      | nil => exact Nat.zero_le _
      | cons value values =>
          have hshorter := List.length_filter_le (fun other => !other == value) values
          have hrest := ih _ (by rw [← hn, List.length_cons]; omega)
            (values.filter fun other => !other == value) rfl
          rw [List.eraseDups_cons, List.length_cons, ← hn, List.length_cons]
          omega

theorem boundedValues_eq_ok {source : List String} {maxValues : ℕ}
    (h : boundedValues source label maxValues = .ok values) (value : String) :
    value ∈ values ↔ value ∈ (source.map trim).filter (· ≠ "") := by
  obtain ⟨_, hbounds, h⟩ := bind_eq_ok.mp h
  obtain rfl := pure_eq_ok.mp h
  have hbounds := require_eq_ok.mp hbounds
  simp only [Bool.not_eq_true', Bool.or_eq_false_iff, decide_eq_false_iff_not, not_lt] at hbounds
  have hlength : (((source.map trim).filter (· ≠ "")).eraseDups).length ≤ maxValues := by
    calc _ ≤ ((source.map trim).filter (· ≠ "")).length := length_eraseDups_le _
      _ ≤ (source.map trim).length := List.length_filter_le _ _
      _ ≤ maxValues := by rw [List.length_map]; exact hbounds.1
  rw [List.take_of_length_le hlength, List.mem_eraseDups]

/-- Trimming once is enough. -/
theorem trim_trim (text : String) : trim (trim text) = trim text := by
  rw [trim, trim, String.toList_ofList]
  set rest := text.toList.dropWhile isTrimmed with hrest
  set core := (rest.reverse.dropWhile isTrimmed).reverse with hcore
  have hprefix : core <+: rest := by
    rw [hcore, ← List.reverse_suffix, List.reverse_reverse]
    exact List.dropWhile_suffix _
  have hleading : core.dropWhile isTrimmed = core := by
    rw [List.dropWhile_eq_self_iff]
    intro hlength
    have hhead : 0 < rest.length := hlength.trans_le hprefix.length_le
    have hfirst : core[0] = rest[0] := hprefix.getElem hlength
    have hrest' : rest.dropWhile isTrimmed = rest := by
      rw [hrest, List.dropWhile_idempotent]
    rw [hfirst]
    exact List.dropWhile_eq_self_iff.mp hrest' hhead
  rw [hleading, hcore, List.reverse_reverse, List.dropWhile_idempotent]

/-- What the normalized search says of what was asked for. -/
structure Normalizes (parsed : Option ParsedSearch) (options : MailSearchOptions)
    (search : NormalizedSearch) : Prop where
  needles : ∀ value, value ∈ search.needles ↔ value ∈ needlesOf parsed options
  «from» : ∀ value, value ∈ search.«from» ↔
    value ∈ valuesOf options.«from» (parsed.bind (·.«from»))
  «to» : ∀ value, value ∈ search.«to» ↔ value ∈ valuesOf options.«to» (parsed.bind (·.«to»))
  subject : ∀ value, value ∈ search.subject ↔
    value ∈ valuesOf options.subject (parsed.bind (·.subject))
  filename : ∀ value, value ∈ search.filename ↔
    value ∈ valuesOf options.filename (parsed.bind (·.filename))
  folder : ∀ value, value ∈ search.folder ↔
    value ∈ valuesOf options.folder (parsed.bind (·.folder))
  labelId : search.labelId = trimmed options.label_id
  dateStart : search.dateStart = options.date_start.or (parsed.bind (·.date_start))
  dateEnd : search.dateEnd = options.date_end.or (parsed.bind (·.date_end))
  isRead : search.isRead = options.is_read.or (parsed.bind (·.is_read))
  isStarred : search.isStarred = options.is_starred.or (parsed.bind (·.is_starred))
  hasAttachment : search.hasAttachment =
    (options.has_attachment.or (parsed.bind (·.has_attachment))).getD false

theorem mem_trimmed :
    value ∈ (values.map trim).filter (· ≠ "") ↔ (∃ v ∈ values, trim v = value) ∧ value ≠ "" := by
  simp

theorem mergeParsed_normalizes (hparsed : parsedQuery toLowerCase options = .ok parsed)
    (h : mergeParsed toLowerCase host options = .ok search) :
    Normalizes parsed options search := by
  rw [mergeParsed, hparsed, ok_bind] at h
  obtain ⟨terms, hterms, h⟩ := bind_eq_ok.mp h
  obtain ⟨phrases, hphrases, h⟩ := bind_eq_ok.mp h
  obtain ⟨_, -, h⟩ := bind_eq_ok.mp h
  obtain ⟨_, -, h⟩ := bind_eq_ok.mp h
  obtain ⟨_, -, h⟩ := bind_eq_ok.mp h
  obtain ⟨_, -, h⟩ := bind_eq_ok.mp h
  obtain ⟨froms, hfrom, h⟩ := bind_eq_ok.mp h
  obtain ⟨tos, hto, h⟩ := bind_eq_ok.mp h
  obtain ⟨subjects, hsubject, h⟩ := bind_eq_ok.mp h
  obtain ⟨filenames, hfilename, h⟩ := bind_eq_ok.mp h
  obtain ⟨folders, hfolder, h⟩ := bind_eq_ok.mp h
  obtain rfl := pure_eq_ok.mp h
  refine ⟨fun value => ?_, boundedValues_eq_ok hfrom, boundedValues_eq_ok hto,
    boundedValues_eq_ok hsubject, boundedValues_eq_ok hfilename, boundedValues_eq_ok hfolder,
    rfl, rfl, rfl, rfl, rfl, rfl⟩
  have hagain : ∀ {source values : List String} {label : String} {maxValues : ℕ},
      boundedValues source label maxValues = .ok values →
      ((∃ v ∈ values, trim v = value) ∧ value ≠ "" ↔
        (∃ v ∈ source, trim v = value) ∧ value ≠ "") := by
    intro source values label maxValues hvalues
    have hmem := boundedValues_eq_ok hvalues
    simp only [mem_trimmed] at hmem
    constructor
    · rintro ⟨⟨v, hv, rfl⟩, hne⟩
      obtain ⟨⟨v', hv', rfl⟩, -⟩ := (hmem v).mp hv
      rw [trim_trim] at hne ⊢
      exact ⟨⟨v', hv', rfl⟩, hne⟩
    · rintro ⟨⟨v, hv, rfl⟩, hne⟩
      exact ⟨⟨trim v, (hmem _).mpr ⟨⟨v, hv, rfl⟩, hne⟩, trim_trim v⟩, hne⟩
  rw [List.mem_eraseDups, mem_trimmed, needlesOf, mem_trimmed]
  have hterm := hagain hterms
  have hphrase := hagain hphrases
  simp only [List.mem_append, or_and_right, exists_or] at hterm hphrase ⊢
  rw [hterm, hphrase]

/-! ### When conditions hold -/

/-- A condition is true on these rows. -/
abbrev Holds (tables : SearchTables) (rows : Rows) (condition : Cond Value) : Prop :=
  Sql.holds (condition.eval tables rows) = true

variable {rows : Rows} {a b c : Cond Value} {cs : List (Cond Value)}

theorem holds_and : Holds tables rows (.and a b) ↔ Holds tables rows a ∧ Holds tables rows b := by
  change Sql.holds (Sql.allOf [a.eval tables rows, b.eval tables rows]) = true ↔ _
  simp [Holds]

theorem holds_or : Holds tables rows (.or a b) ↔ Holds tables rows a ∨ Holds tables rows b := by
  change Sql.holds (Sql.anyOf [a.eval tables rows, b.eval tables rows]) = true ↔ _
  simp [Holds]

/-- A condition on some row of a table. -/
theorem holds_attachments : Holds tables rows (.exists_ .attachments a) ↔
    ∃ row ∈ tables.attachments, Holds tables { rows with attachment := some row } a :=
  Sql.holds_existsRow

theorem holds_folders : Holds tables rows (.exists_ .folders a) ↔
    ∃ row ∈ tables.folders, Holds tables { rows with folder := some row } a :=
  Sql.holds_existsRow

theorem holds_email_labels : Holds tables rows (.exists_ .email_labels a) ↔
    ∃ row ∈ tables.email_labels, Holds tables { rows with label := some row } a :=
  Sql.holds_existsRow

theorem holds_allOf : Holds tables rows (allOf c cs) ↔
    Holds tables rows c ∧ ∀ d ∈ cs, Holds tables rows d := by
  induction cs generalizing c with
  | nil => simp [allOf]
  | cons d cs ih =>
      have hfold : Holds tables rows (allOf c (d :: cs)) ↔
          Holds tables rows (.and c d) ∧ ∀ d ∈ cs, Holds tables rows d := ih
      rw [hfold, holds_and, List.forall_mem_cons, and_assoc]

theorem holds_anyOf : Holds tables rows (anyOf c cs) ↔
    Holds tables rows c ∨ ∃ d ∈ cs, Holds tables rows d := by
  induction cs generalizing c with
  | nil => simp [anyOf]
  | cons d cs ih =>
      have hfold : Holds tables rows (anyOf c (d :: cs)) ↔
          Holds tables rows (.or c d) ∨ ∃ d ∈ cs, Holds tables rows d := ih
      rw [hfold, holds_or, List.exists_mem_cons_iff, or_assoc]

theorem holds_text_eq {y : Operand Value} : Holds tables rows (.eq x y) ↔
    ∃ text, x.eval rows = some text ∧ y.eval rows = some text :=
  Sql.holds_eq

theorem holds_text_ge :
    Holds tables rows (.ge x (.param (.text text))) ↔ ∃ s ∈ x.eval rows, text ≤ s := by
  refine Sql.holds_le.trans ?_
  constructor
  · rintro ⟨t, s, ht, hs, hle⟩
    cases ht
    exact ⟨s, hs, hle⟩
  · rintro ⟨s, hs, hle⟩
    exact ⟨text, s, rfl, hs, hle⟩

theorem holds_text_lt :
    Holds tables rows (.lt x (.param (.text text))) ↔ ∃ s ∈ x.eval rows, s < text := by
  change Sql.holds (Sql.not (Sql.le (some text) (x.eval rows))) = true ↔ _
  cases x.eval rows with
  | none => simp [Sql.le, Sql.not, Sql.holds]
  | some s => simp [Sql.le, Sql.not, Sql.holds]

/-- A word that is not empty is not found in a missing text. -/
theorem occurs_getD (hne : word ≠ "") (text : Option String) :
    Occurs word (text.getD "") ↔ OccursIn word text := by
  cases text with
  | some text => simp [OccursIn]
  | none =>
      have hempty : ¬ Occurs word "" := by
        intro h
        have hnil : word.toList.map foldCase = [] := List.infix_nil.mp h
        exact hne (String.toList_eq_nil_iff.mp (List.map_eq_nil_iff.mp hnil))
      simp [OccursIn, hempty]

/-- **A pattern finds its text literally.** -/
theorem holds_like (hne : word ≠ "") (column : Column) :
    Holds tables rows (.like column (patternOf word)) ↔ OccursIn word (rows.column column) := by
  rw [← occurs_getD hne, ← like_contains]
  change Sql.holds ((patternOf word).asText.map (SqlText.like _)) = true ↔ _
  simp [patternOf, Sql.holds, escapeLike]

theorem holds_likeAny (hne : word ≠ "") (first : Column) (rest : List Column) :
    Holds tables rows (likeAny first rest (patternOf word)) ↔
      ∃ column ∈ first :: rest, OccursIn word (rows.column column) := by
  rw [likeAny, holds_anyOf, List.exists_mem_cons_iff, holds_like hne]
  refine or_congr_right ⟨?_, ?_⟩
  · rintro ⟨_, hmem, h⟩
    obtain ⟨column, hcolumn, rfl⟩ := List.mem_map.mp hmem
    exact ⟨column, hcolumn, (holds_like hne column).mp h⟩
  · rintro ⟨column, hcolumn, h⟩
    exact ⟨_, List.mem_map_of_mem hcolumn, (holds_like hne column).mpr h⟩

/-- The mail has an attachment on which the conditions are true. -/
theorem holds_someAttachment : Holds tables rows (someAttachment cs) ↔
    ∃ a ∈ tables.attachments, a.email_id = rows.email.id ∧
      ∀ d ∈ cs, Holds tables { rows with attachment := some a } d := by
  rw [someAttachment, holds_attachments]
  refine exists_congr fun a => and_congr_right fun _ => ?_
  rw [holds_allOf, holds_text_eq]
  refine and_congr_left fun _ => ?_
  simp [@eq_comm _ rows.email.id]

/-- A needle is in a text of the mail, or in the name of an attachment. -/
theorem holds_needleCondition (hne : word ≠ "") :
    Holds tables { email := e } (needleCondition (patternOf word)) ↔
      (∃ text ∈ [e.subject, e.body, e.sender, e.recipient, e.cc, e.bcc], OccursIn word text) ∨
        ∃ a ∈ tables.attachments, a.email_id = e.id ∧ Occurs word a.filename := by
  rw [needleCondition, holds_or, holds_likeAny hne, holds_someAttachment]
  refine or_congr ?_ ?_
  · simp
  · simp only [List.forall_mem_singleton, holds_like hne, Rows.column, Option.map_some]
    simp [OccursIn]

theorem holds_orLike (hne : ∀ v ∈ value :: values, v ≠ "") :
    Holds tables rows (orLikeMeant first rest value values) ↔
      ∃ v ∈ value :: values, ∃ column ∈ first :: rest, OccursIn v (rows.column column) := by
  rw [orLikeMeant, holds_anyOf, List.exists_mem_cons_iff (a := value),
    holds_likeAny (hne value List.mem_cons_self)]
  refine or_congr_right ⟨?_, ?_⟩
  · rintro ⟨_, hmem, h⟩
    obtain ⟨v, hv, rfl⟩ := List.mem_map.mp hmem
    exact ⟨v, hv, (holds_likeAny (hne v (List.mem_cons_of_mem _ hv)) first rest).mp h⟩
  · rintro ⟨v, hv, h⟩
    exact ⟨_, List.mem_map_of_mem hv,
      (holds_likeAny (hne v (List.mem_cons_of_mem _ hv)) first rest).mpr h⟩

/-- A filter is a condition when it has values. -/
theorem holds_filter {meant : String → List String → Cond Value}
    (h : ∀ value rest, values = value :: rest →
      (Holds tables rows (meant value rest) ↔ ∃ v ∈ value :: rest, meets v)) :
    (∀ d ∈ filterMeant values meant, Holds tables rows d) ↔ Given values meets := by
  cases values with
  | nil => simp [filterMeant, Given]
  | cons value rest => simp only [filterMeant, Given, List.forall_mem_singleton, h value rest rfl,
      reduceCtorEq, false_or]

theorem holds_folderCondition {f : FolderRow} {l : Option EmailLabelRow}
    {a : Option AttachmentRow} :
    Holds tables ⟨e, a, some f, l⟩ (folderCondition (.text value)) ↔
      lower f.id = lower value ∨ lower f.name = lower value := by
  rw [folderCondition, holds_or, holds_text_eq, holds_text_eq]
  simp [eq_comm]

theorem holds_folderMeant :
    Holds tables { email := e } (folderMeant value values) ↔
      ∃ v ∈ value :: values, ∃ f ∈ tables.folders, f.id = e.folder_id ∧
        (lower f.id = lower v ∨ lower f.name = lower v) := by
  have hrow : ∀ f, Holds tables { email := e, folder := some f }
      (.and (.eq (.column .folderId) (.column (.e .folder_id)))
        (anyOf (folderCondition (.text value)) (values.map fun folder =>
          folderCondition (.text folder)))) ↔
      f.id = e.folder_id ∧
        ∃ v ∈ value :: values, lower f.id = lower v ∨ lower f.name = lower v := by
    intro f
    rw [holds_and, holds_text_eq, holds_anyOf, holds_folderCondition, List.exists_mem_cons_iff]
    refine and_congr ?_ (or_congr_right ?_)
    · simp [eq_comm]
    · simp [holds_folderCondition]
  rw [folderMeant, holds_folders]
  constructor
  · rintro ⟨f, hf, h⟩
    obtain ⟨hid, v, hv, h⟩ := (hrow f).mp h
    exact ⟨v, hv, f, hf, hid, h⟩
  · rintro ⟨v, hv, f, hf, hid, h⟩
    exact ⟨f, hf, (hrow f).mpr ⟨hid, v, hv, h⟩⟩

theorem holds_labelMeant :
    Holds tables { email := e } (labelMeant label) ↔
      ∃ l ∈ tables.email_labels, l.email_id = e.id ∧ l.label_id = label := by
  rw [labelMeant, holds_email_labels]
  refine exists_congr fun l => and_congr_right fun _ => ?_
  rw [holds_and, holds_text_eq, holds_text_eq]
  simp [eq_comm]

theorem holds_flag {f : Flag} {wanted : Bool} :
    Holds tables { email := e } (.flag f (flagValue wanted)) ↔
      e.flag f = some (if wanted then 1 else 0) := by
  refine Sql.holds_eq.trans ?_
  cases hflag : e.flag f <;> cases wanted <;> simp [flagValue, Value.asNumber, eq_comm]

/-! ### The condition of a search -/

theorem given_congr {xs ys : List String} (h : ∀ value, value ∈ xs ↔ value ∈ ys) :
    Given xs meets ↔ Given ys meets := by
  have hnil : xs = [] ↔ ys = [] := by
    rw [List.eq_nil_iff_forall_not_mem, List.eq_nil_iff_forall_not_mem]
    simp only [h]
  simp only [Given, hnil, h]

/-- The condition of a filter on columns. -/
theorem holds_orLike_filter {asked : List String} (hmem : ∀ value, value ∈ values ↔ value ∈ asked)
    (hne : ∀ value ∈ asked, value ≠ "") :
    (∀ d ∈ filterMeant values (orLikeMeant first rest), Holds tables rows d) ↔
      Given asked fun value => ∃ column ∈ first :: rest, OccursIn value (rows.column column) := by
  rw [← given_congr hmem]
  refine holds_filter fun value rest' hvalues => holds_orLike fun v hv => ?_
  exact hne v ((hmem v).mp (hvalues ▸ hv))

theorem ne_empty_of_mem_valuesOf {option : Option OneOrMany} {values : Option (List String)} :
    ∀ value ∈ valuesOf option values, value ≠ "" :=
  fun _ h => (mem_trimmed.mp h).2

/-- A condition on a value that may be missing. -/
theorem holds_option {α : Type} {value : Option α} {meant : α → Cond Value} {meets : α → Prop}
    (h : ∀ a, Holds tables rows (meant a) ↔ meets a) :
    (∀ d ∈ value.toList.map meant, Holds tables rows d) ↔ ∀ a ∈ value, meets a := by
  cases value <;> simp [h]

theorem holds_date {date : Option String} {meant : String → Cond Value}
    (h : ∀ text, Holds tables rows (meant text) ↔ meets text) :
    (∀ d ∈ (date.filter (· ≠ "")).toList.map meant, Holds tables rows d) ↔
      ∀ text ∈ date, text ≠ "" → meets text := by
  rw [holds_option h]
  cases date with
  | none => simp
  | some text => by_cases hempty : text = "" <;> simp [hempty]

/-- **When the condition of a search is true of a mail.** -/
theorem holds_where (h : Normalizes parsed options search) :
    Holds tables { email := e } (fragmentsMeant search).where ↔
      AskedApart tables parsed options e ∧ FolderFound tables parsed options e ∧
        DatesFound parsed options e := by
  have hlive : Holds tables { email := e }
      (.ne (.column (.e .folder_id)) (.literal RETIRED_OUTBOUND)) ↔
        e.folder_id ≠ RETIRED_OUTBOUND := by
    refine Sql.holds_ne.trans ?_
    simp
  have hneedles : (∀ d ∈ search.needles.map fun needle => needleCondition (patternOf needle),
      Holds tables { email := e } d) ↔ ∀ needle ∈ needlesOf parsed options,
        (∃ text ∈ [e.subject, e.body, e.sender, e.recipient, e.cc, e.bcc], OccursIn needle text) ∨
          ∃ a ∈ tables.attachments, a.email_id = e.id ∧ Occurs needle a.filename := by
    rw [List.forall_mem_map]
    refine forall_congr' fun needle => ?_
    rw [h.needles]
    exact forall_congr' fun hmem => holds_needleCondition (mem_trimmed.mp hmem).2
  have hfilename : (∀ d ∈ filterMeant search.filename (fun value values =>
      someAttachment [orLikeMeant .attachmentFilename [] value values]),
      Holds tables { email := e } d) ↔
        Given (valuesOf options.filename (parsed.bind (·.filename))) fun value =>
          ∃ a ∈ tables.attachments, a.email_id = e.id ∧ Occurs value a.filename := by
    rw [← given_congr h.filename]
    refine holds_filter fun value values hvalues => ?_
    have hne : ∀ v ∈ value :: values, v ≠ "" := fun v hv =>
      ne_empty_of_mem_valuesOf v ((h.filename v).mp (hvalues ▸ hv))
    have hcolumn : ∀ v a, (∃ column ∈ [Column.attachmentFilename],
        OccursIn v (({ email := e, attachment := some a } : Rows).column column)) ↔
          Occurs v a.filename := fun v a => by
      simp [Rows.column, OccursIn]
    simp only [holds_someAttachment, List.forall_mem_singleton, holds_orLike hne, hcolumn]
    constructor
    · rintro ⟨a, ha, hid, v, hv, hoccurs⟩
      exact ⟨v, hv, a, ha, hid, hoccurs⟩
    · rintro ⟨v, hv, a, ha, hid, hoccurs⟩
      exact ⟨a, ha, hid, v, hv, hoccurs⟩
  have hfolder : (∀ d ∈ filterMeant search.folder folderMeant,
      Holds tables { email := e } d) ↔ FolderFound tables parsed options e := by
    rw [FolderFound, InFolder, ← given_congr h.folder]
    exact holds_filter fun value values _ => holds_folderMeant
  have hattached : (∀ d ∈ (if search.hasAttachment then [someAttachment []] else []),
      Holds tables { email := e } d) ↔ (search.hasAttachment = true →
        ∃ a ∈ tables.attachments, a.email_id = e.id) := by
    cases search.hasAttachment with
    | false => simp
    | true =>
        simp only [if_true, List.forall_mem_singleton, holds_someAttachment]
        simp
  rw [fragmentsMeant, holds_allOf, hlive]
  simp only [List.forall_mem_append, hneedles, hfilename, hfolder, hattached,
    holds_orLike_filter h.«from» ne_empty_of_mem_valuesOf,
    holds_orLike_filter h.«to» ne_empty_of_mem_valuesOf,
    holds_orLike_filter h.subject ne_empty_of_mem_valuesOf,
    holds_option fun _ => holds_labelMeant, holds_option fun _ => holds_flag,
    holds_date fun _ => holds_text_ge, holds_date fun _ => holds_text_lt,
    h.labelId, h.dateStart, h.dateEnd, h.isRead, h.isStarred]
  have hcolumn : ∀ column value, (∃ c ∈ [Column.e column],
      OccursIn value (({ email := e } : Rows).column c)) ↔ OccursIn value (e.column column) :=
    fun column value => by simp [Rows.column]
  have hcolumns : ∀ value, (∃ c ∈ [Column.e .recipient, .e .cc, .e .bcc],
      OccursIn value (({ email := e } : Rows).column c)) ↔
        ∃ text ∈ [e.recipient, e.cc, e.bcc], OccursIn value text :=
    fun value => by simp [Rows.column, EmailRow.column]
  simp only [hcolumn, hcolumns, h.hasAttachment]
  constructor
  · rintro ⟨live, ⟨⟨⟨⟨⟨⟨⟨⟨⟨⟨⟨needles, sender⟩, recipient⟩, subject⟩, filename⟩, folder⟩, label⟩,
      start⟩, stop⟩, read⟩, starred⟩, attached⟩⟩
    exact ⟨⟨live, needles, sender, recipient, subject, filename, label, read, starred,
      attached⟩, folder, start, stop⟩
  · rintro ⟨⟨live, needles, sender, recipient, subject, filename, label, read, starred,
      attached⟩, folder, start, stop⟩
    exact ⟨live, ⟨⟨⟨⟨⟨⟨⟨⟨⟨⟨⟨needles, sender⟩, recipient⟩, subject⟩, filename⟩, folder⟩, label⟩,
      start⟩, stop⟩, read⟩, starred⟩, attached⟩⟩

/-! ### The mails that are found -/

variable {plan : MailSearchPlan}

theorem mem_countRows (hparsed : parsedQuery toLowerCase options = .ok parsed)
    (hplan : buildMailSearchPlan toLowerCase host options = .ok plan) :
    e ∈ countRows tables plan ↔ e ∈ tables.emails ∧ AskedApart tables parsed options e ∧
      FolderFound tables parsed options e ∧ DatesFound parsed options e := by
  obtain ⟨search, -, hsearch, -⟩ := buildMailSearchPlan_eq_ok hplan
  rw [countRows, countSql_bound hsearch hplan, List.mem_filter]
  exact and_congr_right fun _ => holds_where (mergeParsed_normalizes hparsed hsearch)

section

variable (hplan : buildMailSearchPlan toLowerCase host options = .ok plan)
include hplan

/-- A page shows a mail once for each folder that it is joined with, and so at least once. -/
theorem mem_dataRows : (∃ f, (e, f) ∈ dataRows tables plan) ↔ e ∈ countRows tables plan := by
  obtain ⟨search, -, hsearch, -⟩ := buildMailSearchPlan_eq_ok hplan
  have hdata := dataSql_bound hsearch hplan
  obtain ⟨data, hfragments, hdata⟩ := Option.bind_eq_some_iff.mp hdata
  have hsame : data = fragmentsMeant search := by
    obtain ⟨_, -, hdata⟩ := Option.bind_eq_some_iff.mp hdata
    obtain ⟨_, -, hdata⟩ := Option.bind_eq_some_iff.mp hdata
    obtain ⟨_, -, hdata⟩ := Option.bind_eq_some_iff.mp hdata
    obtain ⟨_, -, hdata⟩ := Option.bind_eq_some_iff.mp hdata
    exact congrArg DataStatement.fragments (Option.some.inj hdata)
  obtain ⟨condition, hcondition, hfragments⟩ := Option.bind_eq_some_iff.mp hfragments
  obtain ⟨_, -, hfragments⟩ := Option.bind_eq_some_iff.mp hfragments
  have hwhere : condition = (fragmentsMeant search).where :=
    (congrArg Fragments.where (Option.some.inj hfragments)).trans (hsame ▸ rfl)
  rw [dataRows, countRows, hcondition, countSql_bound hsearch hplan, hwhere]
  simp only [List.mem_filter, List.mem_flatMap]
  constructor
  · rintro ⟨f, ⟨e', he', hjoined⟩, h⟩
    have hself : e = e' := by
      split at hjoined
      · obtain hpair := List.mem_singleton.mp hjoined
        exact congrArg Prod.fst hpair
      · obtain ⟨_, -, hpair⟩ := List.mem_map.mp hjoined
        exact congrArg Prod.fst hpair.symm
    exact ⟨hself ▸ he', h⟩
  · rintro ⟨he, h⟩
    -- the entry is joined with the first folder of its id, or with none
    cases hfolders : tables.folders.filter fun f => e.folder_id = f.id with
    | nil =>
        refine ⟨none, ⟨e, he, ?_⟩, h⟩
        rw [hfolders]
        exact List.mem_singleton_self _
    | cons f folders =>
        refine ⟨some f, ⟨e, he, ?_⟩, h⟩
        rw [hfolders]
        exact List.mem_map_of_mem List.mem_cons_self

theorem parsedQuery_of_plan : ∃ parsed, parsedQuery toLowerCase options = .ok parsed := by
  obtain ⟨_, -, hsearch, -⟩ := buildMailSearchPlan_eq_ok hplan
  obtain ⟨parsed, hparsed, -⟩ := bind_eq_ok.mp hsearch
  exact ⟨parsed, hparsed⟩

end

/-- A lower case that also folds the letters of Latin-1. -/
def lowerLatin (text : String) : String :=
  String.ofList (text.toList.map fun c =>
    if ('A' ≤ c ∧ c ≤ 'Z') ∨ ('À' ≤ c ∧ c ≤ 'Þ' ∧ c ≠ '×') then Char.ofNat (c.toNat + 32) else c)

/-- A mail, and a folder. -/
def mailIn (mail : EmailRow) (folder : FolderRow) : SearchTables where
  emails := [mail]
  attachments := []
  folders := [folder]
  email_labels := []

/-- A run that succeeds, and a check of what it gives. -/
theorem exists_ok_of_check {ε α : Type} (run : Except ε α) (check : α → Bool)
    (h : run.toOption.map check = some true) : ∃ a, run = .ok a ∧ check a = true := by
  cases run with
  | error => cases h
  | ok a => exact ⟨a, rfl, Option.some.inj h⟩

/-- A host that knows the dates of `toISOString`. -/
def isoHost : HostRuntime := ⟨isoTimeValue, fun _ _ => .eq⟩

/-- A mail in the folder `f`. -/
def discountMail : EmailRow :=
  ⟨"m", "f", some "100% off", none, none, none, none, some "2026-07-11T10:00:40.000Z", none, none,
    none⟩

/-- A search for a text with a wildcard in a folder, after a day. -/
def discountSearch : MailSearchOptions :=
  { query := some "100% in:Offers after:2026-07-11" }

/-- A search misses the mail, although it is asked for. -/
def Misses (options : MailSearchOptions) (folder : FolderRow) : Prop :=
  ∃ plan parsed, buildMailSearchPlan lowerLatin isoHost options = .ok plan ∧
    parsedQuery lowerLatin options = .ok parsed ∧
    Asked (mailIn discountMail folder) parsed options discountMail lowerLatin isoHost ∧
    countRows (mailIn discountMail folder) plan = []

/-- Whether a search misses the mail can be run. -/
theorem misses_of_check {options : MailSearchOptions} {folder : FolderRow}
    (hplan : (buildMailSearchPlan lowerLatin isoHost options).toOption.map
      (fun plan => decide (countRows (mailIn discountMail folder) plan = [])) = some true)
    (hasked : (parsedQuery lowerLatin options).toOption.map (fun parsed => decide
      (Asked (mailIn discountMail folder) parsed options discountMail lowerLatin isoHost)) =
        some true) : Misses options folder := by
  obtain ⟨plan, hplan, hcount⟩ := exists_ok_of_check _ _ hplan
  obtain ⟨parsed, hparsed, hasked⟩ := exists_ok_of_check _ _ hasked
  exact ⟨plan, parsed, hplan, hparsed, of_decide_eq_true hasked, of_decide_eq_true hcount⟩

end MailPortal.Search
