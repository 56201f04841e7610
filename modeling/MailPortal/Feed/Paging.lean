import MailPortal.Feed.Page

/-!
# Page after Page

Who follows the cursors of the feed reads every change once and in order, while changes are added. A
page is empty only when nothing is left, and the client accepts every page that the server makes.

Main results:

* `readMailboxChanges_after`, `exchange_none` : the pages.
* `follow_delivers` : any number of pages, one after the other.
-/

namespace MailPortal.Feed

open Failure

variable {normalizeNFC : String → String} {table table' rows : List MailboxChangeRow}
  {row : MailboxChangeRow} {change : MailboxChange} {changes : List MailboxChange} {after limit : ℤ}
variable {n sequence : ℤ} {value : Option Json} {text cursor : String} {expected : Option ℤ}
  {more : List MailboxChangeRow}

/-! ### Rows -/

/-- The row passes the validator, as the change. -/
def Valid (normalizeNFC : String → String) (row : MailboxChangeRow) (change : MailboxChange) :
    Prop := validateMailboxChange normalizeNFC row.value = .ok change

/-- What `AUTOINCREMENT` and the triggers leave. -/
structure Feeds (normalizeNFC : String → String) (table : List MailboxChangeRow) : Prop where
  increasing : table.Pairwise fun row row' => row.sequence < row'.sequence
  valid : ∀ row ∈ table, ∃ change, Valid normalizeNFC row change

theorem asSafeInteger_eq {m : ℤ} (h : (Json.ofInt n).asSafeInteger = some m) :
    m = n ∧ Json.isSafe n = true := by
  simp only [Json.ofInt, Json.asSafeInteger] at h
  split at h
  · rename_i hsafe
    exact ⟨(Option.some.inj h).symm, hsafe.2⟩
  · cases h

/-- A text that passes a test is the text that was given. -/
theorem text_of_checked {refused : String → Prop} [DecidablePred refused]
    (h : (match value.bind Json.asString with
      | some value => if refused value then .error pageError else .ok value
      | none => .error pageError) = (.ok text : Checked String)) :
    value.bind Json.asString = some text := by
  split at h
  · rename_i heq
    split at h
    · cases h
    · rw [heq, Except.ok.inj h]
  · cases h

theorem identifier_eq (h : identifier normalizeNFC value = .ok text) :
    value.bind Json.asString = some text :=
  text_of_checked h

theorem canonicalCommittedAt_eq (h : canonicalCommittedAt value = .ok text) :
    value.bind Json.asString = some text :=
  text_of_checked h

theorem nullableIdentifier_eq {text parentId : Option String}
    (h : nullableIdentifier normalizeNFC (some (.ofNullable text)) = .ok parentId) :
    parentId = text := by
  cases text with
  | none => exact (Except.ok.inj h).symm
  | some text =>
      have h : (identifier normalizeNFC (some (.str text))).map some = .ok parentId := h
      cases hread : identifier normalizeNFC (some (.str text)) with
      | error e =>
          rw [hread] at h
          cases h
      | ok read =>
          rw [hread] at h
          have hsame : some text = some read := identifier_eq hread
          rw [hsame]
          exact (Except.ok.inj h).symm

/-- **A row that passes is the row of the change that comes out.** -/
theorem validated_row (h : Valid normalizeNFC row change) :
    change.row = row ∧ 1 ≤ row.sequence ∧ Json.isSafe row.sequence = true := by
  rw [Valid, validateMailboxChange] at h
  obtain ⟨_, -, h⟩ := bind_eq_ok.mp h
  obtain ⟨_, -, h⟩ := bind_eq_ok.mp h
  obtain ⟨sequence, hsequence, h⟩ := bind_eq_ok.mp h
  obtain ⟨_, hversion, h⟩ := bind_eq_ok.mp h
  obtain ⟨resource, hresource, h⟩ := bind_eq_ok.mp h
  obtain ⟨operation, hoperation, h⟩ := bind_eq_ok.mp h
  obtain ⟨committedAt, hcommittedAt, h⟩ := bind_eq_ok.mp h
  obtain ⟨entityId, hentityId, h⟩ := bind_eq_ok.mp h
  obtain ⟨parentId, hparentId, h⟩ := bind_eq_ok.mp h
  obtain ⟨rfl, hsafe⟩ := asSafeInteger_eq (orThrow_eq_ok.mp hsequence :
    (Json.ofInt row.sequence).asSafeInteger = some sequence)
  have hversion := require_eq_ok.mp hversion
  rw [Bool.and_eq_true] at hversion
  obtain ⟨hone, -⟩ := asSafeInteger_eq (of_decide_eq_true hversion.2 :
    (Json.ofInt row.schemaVersion).asSafeInteger = some 1)
  have hresource : MAILBOX_CHANGE_RESOURCES.find? (fun resource => resource.text = row.resource) =
      some resource := orThrow_eq_ok.mp hresource
  have hoperation : MAILBOX_CHANGE_OPERATIONS.find?
      (fun operation => operation.text = row.operation) = some operation :=
    orThrow_eq_ok.mp hoperation
  have hresource : resource.text = row.resource := by simpa using List.find?_some hresource
  have hoperation : operation.text = row.operation := by simpa using List.find?_some hoperation
  have hcommittedAt : some row.committedAt = some committedAt :=
    canonicalCommittedAt_eq hcommittedAt
  have hentityId : some row.entityId = some entityId := identifier_eq hentityId
  have hparentId := nullableIdentifier_eq (hparentId :
    nullableIdentifier normalizeNFC (some (.ofNullable row.parentId)) = .ok parentId)
  refine ⟨?_, of_decide_eq_true hversion.1, hsafe⟩
  rw [← pure_eq_ok.mp h]
  cases row
  simp_all [MailboxChange.row]

theorem changeKeys_sorted : joinKeys (sorted ["sequence", "schemaVersion", "committedAt",
      "resource", "entityId", "parentId", "operation"]) =
    "committedAt,entityId,operation,parentId,resource,schemaVersion,sequence" := by
  have hperm : ["sequence", "schemaVersion", "committedAt", "resource", "entityId", "parentId",
      "operation"].Perm ["committedAt", "entityId", "operation", "parentId", "resource",
        "schemaVersion", "sequence"] := by decide
  have hle : ["committedAt", "entityId", "operation", "parentId", "resource", "schemaVersion",
      "sequence"].Pairwise fun a b => jsLe a b = true := by decide +kernel
  rw [sorted_eq_iff.mpr hperm, sorted, List.mergeSort_of_pairwise hle]
  rfl

theorem rows_of_valid (h : List.Forall₂ (Valid normalizeNFC) rows changes) :
    changes.map MailboxChange.row = rows := by
  induction h with
  | nil => rfl
  | cons hrow _ ih => rw [List.map_cons, (validated_row hrow).1, ih]

theorem Feeds.exists_valid (h : Feeds normalizeNFC table) (hsub : rows.Sublist table) :
    ∃ changes, List.Forall₂ (Valid normalizeNFC) rows changes := by
  induction rows with
  | nil => exact ⟨[], .nil⟩
  | cons row rows ih =>
      obtain ⟨change, hchange⟩ := h.valid row (hsub.subset List.mem_cons_self)
      obtain ⟨changes, hchanges⟩ := ih ((List.sublist_cons_self row rows).trans hsub)
      exact ⟨change :: changes, .cons hchange hchanges⟩

/-! ### The last change -/

theorem le_maxSequence (hrow : row ∈ table) : row.sequence ≤ maxSequence table := by
  have hmem : row.sequence ∈ table.map MailboxChangeRow.sequence := List.mem_map_of_mem hrow
  rw [maxSequence]
  cases hmax : (table.map MailboxChangeRow.sequence).max? with
  | none =>
      rw [List.max?_eq_none_iff.mp hmax] at hmem
      cases hmem
  | some sequence => exact (List.max?_eq_some_iff.mp hmax).2 row.sequence hmem

theorem maxSequence_cases (table : List MailboxChangeRow) :
    maxSequence table = 0 ∨ ∃ row ∈ table, row.sequence = maxSequence table := by
  rw [maxSequence]
  cases hmax : (table.map MailboxChangeRow.sequence).max? with
  | none => exact .inl rfl
  | some sequence =>
      obtain ⟨row, hrow, rfl⟩ := List.mem_map.mp (List.max?_eq_some_iff.mp hmax).1
      exact .inr ⟨row, hrow, rfl⟩

theorem Feeds.current (h : Feeds normalizeNFC table) :
    Json.isSafe (maxSequence table) = true ∧ 0 ≤ maxSequence table := by
  rcases maxSequence_cases table with hzero | ⟨row, hrow, heq⟩
  · rw [hzero]
    exact ⟨rfl, le_rfl⟩
  · obtain ⟨change, hchange⟩ := h.valid row hrow
    obtain ⟨-, hpos, hsafe⟩ := validated_row hchange
    exact heq ▸ ⟨hsafe, by omega⟩

/-! ### Rows of a page -/

/-- The rows after a sequence number. -/
def rowsAfter (table : List MailboxChangeRow) (after : ℤ) : List MailboxChangeRow :=
  table.filter fun row => after < row.sequence

theorem mem_rowsAfter : row ∈ rowsAfter table after ↔ row ∈ table ∧ after < row.sequence := by
  rw [rowsAfter, List.mem_filter, decide_eq_true_eq]

theorem rowsAfter_sublist (table : List MailboxChangeRow) (after : ℤ) :
    (rowsAfter table after).Sublist table := List.filter_sublist

theorem Feeds.selectChanges_eq (h : Feeds normalizeNFC table) (after limit : ℤ) :
    selectChanges table after limit = (rowsAfter table after).take limit.toNat := by
  have hsorted : (rowsAfter table after).Pairwise fun row row' => row.sequence ≤ row'.sequence :=
    (h.increasing.imp fun hlt => le_of_lt hlt).sublist (rowsAfter_sublist table after)
  exact congrArg (List.take limit.toNat) hsorted.insertionSort_eq

/-- The number that a page's cursor is to have. -/
def lastSequence (after : ℤ) (rows : List MailboxChangeRow) : ℤ :=
  (rows.getLast?.map MailboxChangeRow.sequence).getD after

theorem rowsAfter_filter {after later : ℤ} (h : after ≤ later) :
    rowsAfter table later = rowsAfter (rowsAfter table after) later := by
  simp only [rowsAfter, List.filter_filter]
  refine List.filter_congr fun row _ => ?_
  rw [← Bool.decide_and]
  exact decide_eq_decide.mpr ⟨fun hlt => ⟨hlt, h.trans_lt hlt⟩, And.left⟩

/-- In rows that increase, those after a row are those behind it. -/
theorem rowsAfter_split {before behind : List MailboxChangeRow}
    (h : (before ++ row :: behind).Pairwise fun row row' => row.sequence < row'.sequence) :
    rowsAfter (before ++ row :: behind) row.sequence = behind := by
  obtain ⟨-, hrest, hbefore⟩ := List.pairwise_append.mp h
  obtain ⟨hbehind, -⟩ := List.pairwise_cons.mp hrest
  have hnone : before.filter (fun other => row.sequence < other.sequence) = [] := by
    refine List.filter_eq_nil_iff.mpr fun other hother hlt => ?_
    exact absurd (of_decide_eq_true hlt) (hbefore other hother row List.mem_cons_self).not_gt
  have hall : behind.filter (fun other => row.sequence < other.sequence) = behind :=
    List.filter_eq_self.mpr fun other hother => decide_eq_true (hbehind other hother)
  rw [rowsAfter, List.filter_append, hnone, List.nil_append, List.filter_cons_of_neg (by simp),
    hall]

/-- What is behind a page is behind its cursor. -/
theorem rowsAfter_lastSequence
    (hincreasing : table.Pairwise fun row row' => row.sequence < row'.sequence) (limit : ℕ) :
    rowsAfter table (lastSequence after ((rowsAfter table after).take limit)) =
      (rowsAfter table after).drop limit := by
  have hsplit := List.take_append_drop limit (rowsAfter table after)
  rcases List.eq_nil_or_concat ((rowsAfter table after).take limit) with hnil | ⟨before, row, hpage⟩
  · rw [hnil, List.nil_append] at hsplit
    rw [hnil, hsplit]
    rfl
  · have hmem : row ∈ rowsAfter table after := List.mem_of_mem_take (i := limit) (by
      rw [hpage, List.concat_eq_append]
      exact List.mem_concat_self)
    have hlast : lastSequence after ((rowsAfter table after).take limit) = row.sequence := by
      rw [hpage, lastSequence, List.concat_eq_append, List.getLast?_concat]
      rfl
    rw [hlast, rowsAfter_filter (mem_rowsAfter.mp hmem).2.le]
    rw [hpage, List.concat_eq_append, List.append_assoc, List.singleton_append] at hsplit
    conv_lhs => rw [← hsplit]
    refine rowsAfter_split ?_
    rw [hsplit]
    exact hincreasing.sublist (rowsAfter_sublist table after)

theorem ascends_of_increasing {after : ℤ}
    (hincreasing : (changes.map MailboxChange.row).Pairwise fun row row' =>
      row.sequence < row'.sequence)
    (hafter : ∀ row ∈ changes.map MailboxChange.row, after < row.sequence) :
    ascends after changes = true := by
  induction changes generalizing after with
  | nil => rfl
  | cons change changes ih =>
      obtain ⟨hfirst, hrest⟩ := List.pairwise_cons.mp hincreasing
      have hlt : after < change.sequence := hafter change.row List.mem_cons_self
      rw [ascends, decide_eq_true hlt, Bool.true_and]
      exact ih hrest hfirst

/-! ### Pages -/

theorem pageKeys_sorted : joinKeys (sorted ["changes", "nextCursor"]) = "changes,nextCursor" := by
  have hle : ["changes", "nextCursor"].Pairwise fun a b => jsLe a b = true := by
    have hle : jsLe "changes" "nextCursor" = true := by decide +kernel
    simp [hle]
  rw [sorted, List.mergeSort_of_pairwise hle]
  rfl

/-- **Which pages are accepted.** -/
theorem validatePage_ok {nextCursor : String}
    (hvalid : List.Forall₂ (Valid normalizeNFC) rows changes)
    (hlength : rows.length ≤ MAILBOX_CHANGE_LIMITS.maxPageSize)
    (hempty : expected = none → changes = []) (hascends : ascends (expected.getD 0) changes = true)
    (hcursor : decodeMailboxChangeCursor nextCursor = .ok n)
    (hlast : ∀ after, expected = some after → lastSequence after rows = n) :
    validateMailboxChangePage normalizeNFC (rowsPage rows nextCursor) expected =
      .ok ⟨changes, nextCursor⟩ := by
  have hitems : (rows.map MailboxChangeRow.value).mapM (validateMailboxChange normalizeNFC) =
      .ok changes := by
    rw [mapM_eq_ok]
    exact List.forall₂_map_left_iff.mpr hvalid
  have hsome : (expected.isSome || decide (changes = [])) = true := by
    cases expected with
    | none => exact decide_eq_true (hempty rfl)
    | some after => rfl
  refine bind_eq_ok.mpr ⟨["changes", "nextCursor"], rfl, ?_⟩
  refine bind_eq_ok.mpr ⟨(), require_eq_ok.mpr (decide_eq_true pageKeys_sorted), ?_⟩
  refine bind_eq_ok.mpr ⟨rows.map MailboxChangeRow.value, rfl, ?_⟩
  refine bind_eq_ok.mpr ⟨nextCursor, rfl, ?_⟩
  refine bind_eq_ok.mpr ⟨(), require_eq_ok.mpr ?_, ?_⟩
  · rw [List.length_map]
    exact decide_eq_true hlength
  refine bind_eq_ok.mpr ⟨changes, hitems, ?_⟩
  refine bind_eq_ok.mpr ⟨(), require_eq_ok.mpr hsome, ?_⟩
  refine bind_eq_ok.mpr ⟨(), require_eq_ok.mpr hascends, ?_⟩
  refine bind_eq_ok.mpr ⟨n, hcursor, ?_⟩
  have hrows := rows_of_valid hvalid
  cases hchanges : changes.getLast? with
  | none =>
      obtain rfl := List.getLast?_eq_none_iff.mp hchanges
      subst hrows
      refine bind_eq_ok.mpr ⟨(), require_eq_ok.mpr ?_, rfl⟩
      cases expected with
      | none => rfl
      | some after => exact decide_eq_true (hlast after rfl).symm
  | some last =>
      refine bind_eq_ok.mpr ⟨(), require_eq_ok.mpr ?_, rfl⟩
      cases expected with
      | none =>
          rw [hempty rfl] at hchanges
          cases hchanges
      | some after =>
          rw [← hlast after rfl, lastSequence, ← hrows, List.getLast?_map, hchanges]
          exact decide_eq_true rfl

/-- The changes of a page are the first rows after a number, and its cursor is that of the last. -/
structure IsPage (table : List MailboxChangeRow) (after : ℤ) (limit : ℕ)
    (page : MailboxChangePage) : Prop where
  rows : page.changes.map MailboxChange.row = (rowsAfter table after).take limit
  cursor : decodeMailboxChangeCursor page.nextCursor =
    .ok (lastSequence after ((rowsAfter table after).take limit))

/-- A page is the value that it was made of, so that it is accepted twice. -/
theorem value_of_valid (hvalid : List.Forall₂ (Valid normalizeNFC) rows changes)
    (nextCursor : String) :
    MailboxChangePage.value ⟨changes, nextCursor⟩ = rowsPage rows nextCursor := by
  rw [MailboxChangePage.value, rowsPage, ← rows_of_valid hvalid, List.map_map]
  rfl

theorem lastSequence_safe {after : ℤ} (hrows : ∀ row ∈ rows, Json.isSafe row.sequence = true ∧
      1 ≤ row.sequence) (hsafe : Json.isSafe after = true) (hafter : 0 ≤ after) :
    Json.isSafe (lastSequence after rows) = true ∧ 0 ≤ lastSequence after rows := by
  rw [lastSequence]
  cases hlast : rows.getLast? with
  | none => exact ⟨hsafe, hafter⟩
  | some row =>
      obtain ⟨hrow, hpos⟩ := hrows row (List.mem_of_getLast? hlast)
      exact ⟨hrow, by rw [Option.map_some, Option.getD_some]; omega⟩

theorem encode_of_safe (hsafe : Json.isSafe sequence = true) (h : 0 ≤ sequence) :
    ∃ value, encodeMailboxChangeCursor sequence = .ok value := by
  rw [encodeMailboxChangeCursor, hsafe, if_neg (by simpa using h)]
  exact ⟨_, rfl⟩

variable {limit : ℕ}

/-- **The page after a number**, as the server makes it and the client takes it. -/
theorem Feeds.page (h : Feeds normalizeNFC table) (hsafe : Json.isSafe after = true)
    (hafter : 0 ≤ after) (hlimit : limit ≤ MAILBOX_CHANGE_LIMITS.maxPageSize) :
    ∃ page, readChangesAfter normalizeNFC table after limit = .ok page ∧
      IsPage table after limit page ∧
      validateMailboxChangePage normalizeNFC page.value (some after) = .ok page := by
  have hsub : ((rowsAfter table after).take limit).Sublist table :=
    (List.take_sublist limit _).trans (rowsAfter_sublist table after)
  obtain ⟨changes, hchanges⟩ := h.exists_valid hsub
  have hrows : ∀ row ∈ (rowsAfter table after).take limit,
      Json.isSafe row.sequence = true ∧ 1 ≤ row.sequence := by
    intro row hrow
    obtain ⟨change, hchange⟩ := h.valid row (hsub.subset hrow)
    exact ⟨(validated_row hchange).2.2, (validated_row hchange).2.1⟩
  obtain ⟨hlastSafe, hlast⟩ := lastSequence_safe hrows hsafe hafter
  obtain ⟨nextCursor, hnext⟩ := encode_of_safe hlastSafe hlast
  have hascends : ascends after changes = true := by
    have hsame := rows_of_valid hchanges
    refine ascends_of_increasing (hsame ▸ h.increasing.sublist hsub) fun row hrow => ?_
    exact (mem_rowsAfter.mp (List.mem_of_mem_take (hsame ▸ hrow))).2
  have hlength : ((rowsAfter table after).take limit).length ≤ MAILBOX_CHANGE_LIMITS.maxPageSize :=
    (List.length_take_le _ _).trans hlimit
  have hcursor := decode_of_encode hnext
  have hmade : validateMailboxChangePage normalizeNFC
      (rowsPage ((rowsAfter table after).take limit) nextCursor) (some after) =
        .ok ⟨changes, nextCursor⟩ := by
    refine validatePage_ok hchanges hlength (fun hnone => by cases hnone) hascends hcursor ?_
    rintro _ ⟨⟩
    rfl
  refine ⟨⟨changes, nextCursor⟩, ?_, ⟨rows_of_valid hchanges, hcursor⟩, ?_⟩
  · rw [readChangesAfter, h.selectChanges_eq, Int.toNat_natCast]
    exact bind_eq_ok.mpr ⟨nextCursor, hnext, hmade⟩
  · rw [value_of_valid hchanges]
    exact hmade

theorem Feeds.currentSequence (h : Feeds normalizeNFC table) :
    readMailboxCurrentSequence table = .ok (maxSequence table) := by
  obtain ⟨hsafe, hpos⟩ := h.current
  refine bind_eq_ok.mpr ⟨(), require_eq_ok.mpr ?_, rfl⟩
  rw [hsafe, Bool.true_and]
  exact decide_eq_true hpos

theorem query_ok (hafter : ∀ after, expected = some after → Json.isSafe after = true ∧ 0 ≤ after)
    (hpos : 0 < limit) (hlimit : limit ≤ MAILBOX_CHANGE_LIMITS.maxPageSize) :
    validateNormalizedMailboxChangeQuery ⟨expected, limit⟩ = .ok ⟨expected, limit⟩ := by
  have hmaximum : MAILBOX_CHANGE_LIMITS.maxPageSize ≤ Json.maxSafeInteger := by decide
  have hsafe : Json.isSafe (limit : ℤ) = true := decide_eq_true (hlimit.trans hmaximum)
  have hall : (expected.all fun after => Json.isSafe after && 0 ≤ after) = true := by
    cases expected with
    | none => rfl
    | some after =>
        obtain ⟨hsafe, hafter⟩ := hafter after rfl
        simp [hsafe, hafter]
  refine bind_eq_ok.mpr ⟨(), require_eq_ok.mpr ?_, rfl⟩
  have hone : (1 : ℤ) ≤ limit := by omega
  have hmax : (limit : ℤ) ≤ MAILBOX_CHANGE_LIMITS.maxPageSize := by exact_mod_cast hlimit
  simp [hall, hsafe, hone, hmax]

theorem cursor_safe (h : decodeMailboxChangeCursor cursor = .ok after) :
    Json.isSafe after = true ∧ 0 ≤ after := by
  obtain ⟨n, rfl, -, hsafe, -⟩ := encode_eq_ok (encode_of_decode h)
  exact ⟨hsafe, Int.natCast_nonneg n⟩

theorem query_of_cursor (hcursor : decodeMailboxChangeCursor cursor = .ok after) (hpos : 0 < limit)
    (hlimit : limit ≤ MAILBOX_CHANGE_LIMITS.maxPageSize) :
    validateNormalizedMailboxChangeQuery ⟨some after, limit⟩ = .ok ⟨some after, limit⟩ := by
  refine query_ok (fun sent hsent => ?_) hpos hlimit
  cases hsent
  exact cursor_safe hcursor

theorem Feeds.readMailboxChanges_eq (h : Feeds normalizeNFC table) {limit : ℤ}
    (hquery : validateNormalizedMailboxChangeQuery ⟨some after, limit⟩ =
      .ok ⟨some after, limit⟩) :
    readMailboxChanges normalizeNFC table ⟨some after, limit⟩ =
      require (after ≤ maxSequence table) "Future mailbox change cursor is invalid" >>= fun _ =>
        readChangesAfter normalizeNFC table after limit := by
  rw [readMailboxChanges, hquery, ok_bind, h.currentSequence, ok_bind]

/-- **The page of a cursor.** -/
theorem readMailboxChanges_after (h : Feeds normalizeNFC table) {cursor : String} (limit : ℕ)
    (hcursor : decodeMailboxChangeCursor cursor = .ok after) (hle : after ≤ maxSequence table)
    (hpos : 0 < limit) (hlimit : limit ≤ MAILBOX_CHANGE_LIMITS.maxPageSize) :
    ∃ page, readMailboxChanges normalizeNFC table ⟨some after, limit⟩ = .ok page ∧
      IsPage table after limit page ∧
      listMailboxChanges normalizeNFC (some cursor) page.value = .ok page := by
  obtain ⟨hsafe, hafter⟩ := cursor_safe hcursor
  obtain ⟨page, hread, hpage, haccepted⟩ := h.page hsafe hafter hlimit
  refine ⟨page, ?_, hpage, ?_⟩
  · rw [h.readMailboxChanges_eq (query_of_cursor hcursor hpos hlimit)]
    exact bind_eq_ok.mpr ⟨(), require_eq_ok.mpr (decide_eq_true hle), hread⟩
  · refine bind_eq_ok.mpr ⟨some after, ?_, haccepted⟩
    exact bind_eq_ok.mpr ⟨after, hcursor, rfl⟩

/-! ### A request and its answer -/

theorem row_plain (h : Json.isSafe change.sequence = true) : change.row.value.Plain := by
  have hkeys : (["sequence", "schemaVersion", "committedAt", "resource", "entityId", "parentId",
      "operation"] : List String).Nodup := by decide
  refine Json.plain_obj hkeys ?_
  simp only [List.forall_mem_cons]
  have hversion : Json.isSafe 1 = true := rfl
  exact ⟨Json.plain_ofInt h, Json.plain_ofInt hversion, Json.plain_str _, Json.plain_str _,
    Json.plain_str _, Json.plain_ofNullable _, Json.plain_str _, fun _ h => absurd h
      List.not_mem_nil⟩

variable {page : MailboxChangePage}

theorem page_plain (h : ∀ change ∈ page.changes, Json.isSafe change.sequence = true) :
    page.value.Plain := by
  have hkeys : (["changes", "nextCursor"] : List String).Nodup := by decide
  refine Json.plain_obj hkeys ?_
  simp only [List.forall_mem_cons]
  refine ⟨Json.plain_arr fun value hvalue => ?_, Json.plain_str _, fun _ h => absurd h
    List.not_mem_nil⟩
  obtain ⟨change, hchange, rfl⟩ := List.mem_map.mp hvalue
  exact row_plain (h change hchange)

theorem Feeds.safe (h : Feeds normalizeNFC table) (hrow : change.row ∈ table) :
    Json.isSafe change.sequence = true := by
  obtain ⟨validated, hvalid⟩ := h.valid _ hrow
  exact (validated_row hvalid).2.2

theorem IsPage.plain (h : Feeds normalizeNFC table) (hpage : IsPage table after limit page) :
    page.value.Plain := by
  refine page_plain fun change hchange => h.safe ?_
  have hmem : change.row ∈ page.changes.map MailboxChange.row := List.mem_map_of_mem hchange
  rw [hpage.rows] at hmem
  exact (mem_rowsAfter.mp (List.mem_of_mem_take hmem)).1

theorem normalize_after (hcursor : decodeMailboxChangeCursor cursor = .ok after) :
    normalizeMailboxChangeQuery (changeParams (some cursor)) = .ok ⟨some after, (100 : ℕ)⟩ := by
  have hdecode : (some cursor).mapM decodeMailboxChangeCursor = .ok (some after) :=
    bind_eq_ok.mpr ⟨after, hcursor, rfl⟩
  exact bind_eq_ok.mpr ⟨none, rfl, bind_eq_ok.mpr ⟨(), rfl, bind_eq_ok.mpr ⟨(), rfl,
    bind_eq_ok.mpr ⟨some cursor, rfl, bind_eq_ok.mpr ⟨some after, hdecode,
      query_of_cursor hcursor (by decide) (by decide)⟩⟩⟩⟩⟩

theorem cursor_of_normalize {options : NormalizedMailboxChangeQuery}
    (h : normalizeMailboxChangeQuery (changeParams (some cursor)) = .ok options) :
    ∃ after, decodeMailboxChangeCursor cursor = .ok after := by
  obtain ⟨limit, hlimit, h⟩ := bind_eq_ok.mp h
  obtain rfl : none = limit := Except.ok.inj hlimit
  obtain ⟨_, -, h⟩ := bind_eq_ok.mp h
  obtain ⟨_, -, h⟩ := bind_eq_ok.mp h
  obtain ⟨raw, hraw, h⟩ := bind_eq_ok.mp h
  obtain rfl : some cursor = raw := Except.ok.inj hraw
  obtain ⟨_, hafter, -⟩ := bind_eq_ok.mp h
  obtain ⟨after, hcursor, -⟩ := bind_eq_ok.mp hafter
  exact ⟨after, hcursor⟩

theorem serveChanges_after (hcursor : decodeMailboxChangeCursor cursor = .ok after) :
    serveChanges normalizeNFC table (changeParams (some cursor)) =
      readMailboxChanges normalizeNFC table ⟨some after, (100 : ℕ)⟩ >>= fun page =>
        .ok (Json.stringify page.value) := by
  rw [serveChanges, normalize_after hcursor, ok_bind,
    query_of_cursor hcursor (by decide) (by decide), ok_bind]
  rfl

section

variable (h : Feeds normalizeNFC table)
include h

/-- **The answer to a cursor.** -/
theorem exchange_after (hcursor : decodeMailboxChangeCursor cursor = .ok after)
    (hle : after ≤ maxSequence table) :
    ∃ page, exchange normalizeNFC table (some cursor) = .ok page ∧
      IsPage table after 100 page := by
  obtain ⟨page, hread, hpage, haccepted⟩ :=
    readMailboxChanges_after h 100 hcursor hle (by decide) (by decide)
  refine ⟨page, ?_, hpage⟩
  rw [exchange, serveChanges_after hcursor, hread, ok_bind, ok_bind]
  exact bind_eq_ok.mpr ⟨page.value, orThrow_eq_ok.mpr (Json.parse_stringify (hpage.plain h)),
    haccepted⟩

/-- **The answer without a cursor.** -/
theorem exchange_none :
    ∃ page, exchange normalizeNFC table none = .ok page ∧ page.changes = [] ∧
      decodeMailboxChangeCursor page.nextCursor = .ok (maxSequence table) := by
  obtain ⟨hsafe, hcurrent⟩ := h.current
  obtain ⟨nextCursor, hnext⟩ := encode_of_safe hsafe hcurrent
  have hcursor := decode_of_encode hnext
  have hmade : validateMailboxChangePage normalizeNFC (rowsPage [] nextCursor) none =
      .ok ⟨[], nextCursor⟩ :=
    validatePage_ok .nil (Nat.zero_le _) (fun _ => rfl) rfl hcursor fun _ hnone => by cases hnone
  have hquery : validateNormalizedMailboxChangeQuery ⟨none, (100 : ℕ)⟩ = .ok ⟨none, (100 : ℕ)⟩ :=
    query_ok (fun _ hafter => by cases hafter) (by decide) (by decide)
  have hplain : (rowsPage [] nextCursor).Plain :=
    @page_plain ⟨[], nextCursor⟩ nofun
  have hread : readMailboxChanges normalizeNFC table ⟨none, (100 : ℕ)⟩ = .ok ⟨[], nextCursor⟩ :=
    bind_eq_ok.mpr ⟨_, hquery, bind_eq_ok.mpr ⟨_, h.currentSequence,
      bind_eq_ok.mpr ⟨nextCursor, hnext, hmade⟩⟩⟩
  have hserve : serveChanges normalizeNFC table (changeParams none) =
      .ok (Json.stringify (rowsPage [] nextCursor)) :=
    bind_eq_ok.mpr ⟨⟨none, (100 : ℕ)⟩, rfl, bind_eq_ok.mpr ⟨_, hquery,
      bind_eq_ok.mpr ⟨_, hread, rfl⟩⟩⟩
  refine ⟨⟨[], nextCursor⟩, ?_, rfl, hcursor⟩
  rw [exchange, hserve, ok_bind, Json.parse_stringify hplain]
  exact hmade

/-- An answer is to a cursor that is not ahead of the table. -/
theorem exchange_eq_ok (hpage : exchange normalizeNFC table (some cursor) = .ok page) :
    ∃ after, decodeMailboxChangeCursor cursor = .ok after ∧ after ≤ maxSequence table ∧
      IsPage table after 100 page := by
  obtain ⟨text, hserve, -⟩ := bind_eq_ok.mp hpage
  obtain ⟨options, hoptions, -⟩ := bind_eq_ok.mp hserve
  obtain ⟨after, hcursor⟩ := cursor_of_normalize hoptions
  rw [serveChanges_after hcursor,
    h.readMailboxChanges_eq (query_of_cursor hcursor (by decide) (by decide))] at hserve
  obtain ⟨read, hread, -⟩ := bind_eq_ok.mp hserve
  obtain ⟨_, hrequire, -⟩ := bind_eq_ok.mp hread
  have hle : after ≤ maxSequence table := of_decide_eq_true (require_eq_ok.mp hrequire)
  obtain ⟨made, hmade, hisPage⟩ := exchange_after h hcursor hle
  obtain rfl : page = made := Except.ok.inj (hpage.symm.trans hmade)
  exact ⟨after, hcursor, hle, hisPage⟩

end

/-! ### Tables that grow -/

theorem Feeds.of_prefix (h : Feeds normalizeNFC table') (hgrows : table <+: table') :
    Feeds normalizeNFC table where
  increasing := h.increasing.sublist hgrows.sublist
  valid row hrow := h.valid row (hgrows.subset hrow)

/-- What is added has larger numbers. -/
theorem Feeds.maxSequence_lt (h : Feeds normalizeNFC (table ++ more)) (hrow : row ∈ more) :
    maxSequence table < row.sequence := by
  rcases maxSequence_cases table with hzero | ⟨last, hlast, heq⟩
  · obtain ⟨change, hchange⟩ := h.valid row (List.mem_append_right table hrow)
    have hone := (validated_row hchange).2.1
    omega
  · rw [← heq]
    exact (List.pairwise_append.mp h.increasing).2.2 last hlast row hrow

theorem maxSequence_mono (h : Feeds normalizeNFC table') (hgrows : table <+: table') :
    maxSequence table ≤ maxSequence table' := by
  rcases maxSequence_cases table with hzero | ⟨last, hlast, heq⟩
  · exact hzero ▸ h.current.2
  · exact heq ▸ le_maxSequence (hgrows.subset hlast)

/-- The rows after a number that is not ahead of a part, in the part and behind it. -/
theorem Feeds.rowsAfter_append (h : Feeds normalizeNFC (table ++ more))
    (hle : after ≤ maxSequence table) :
    rowsAfter (table ++ more) after = rowsAfter table after ++ more := by
  have hmore : rowsAfter more after = more := List.filter_eq_self.mpr fun row hrow =>
    decide_eq_true (hle.trans_lt (h.maxSequence_lt hrow))
  rw [rowsAfter, List.filter_append]
  exact congrArg _ hmore

theorem lastSequence_le (hle : after ≤ maxSequence table) (limit : ℕ) :
    after ≤ lastSequence after ((rowsAfter table after).take limit) ∧
      lastSequence after ((rowsAfter table after).take limit) ≤ maxSequence table := by
  rw [lastSequence]
  cases hlast : ((rowsAfter table after).take limit).getLast? with
  | none => exact ⟨le_rfl, hle⟩
  | some row =>
      obtain ⟨hrow, hlt⟩ := mem_rowsAfter.mp (List.mem_of_mem_take (List.mem_of_getLast? hlast))
      exact ⟨hlt.le, le_maxSequence hrow⟩

/-- A page, and what is behind its cursor, are what was behind the cursor that was sent; also in the
table as it has become. -/
theorem IsPage.split (h : Feeds normalizeNFC table') (hgrows : table <+: table')
    (hle : after ≤ maxSequence table) (hpage : IsPage table after limit page) :
    page.changes.map MailboxChange.row ++
        rowsAfter table' (lastSequence after ((rowsAfter table after).take limit)) =
      rowsAfter table' after := by
  obtain ⟨more, rfl⟩ := hgrows
  obtain ⟨-, hlast⟩ := lastSequence_le hle limit
  have hincreasing := (h.of_prefix ⟨more, rfl⟩).increasing
  rw [h.rowsAfter_append hlast, h.rowsAfter_append hle, rowsAfter_lastSequence hincreasing,
    hpage.rows, ← List.append_assoc, List.take_append_drop]

/-! ### Page after page -/

/-- A reader follows the cursors; each page is read from the table as it is then. -/
def follow (normalizeNFC : String → String) :
    List (List MailboxChangeRow × ℕ) → String → Checked (List MailboxChangePage × String)
  | [], cursor => .ok ([], cursor)
  | (table, limit) :: reads, cursor => do
    let after ← decodeMailboxChangeCursor cursor
    let page ← readMailboxChanges normalizeNFC table ⟨some after, limit⟩
    let page ← listMailboxChanges normalizeNFC (some cursor) page.value
    let (pages, last) ← follow normalizeNFC reads page.nextCursor
    return (page :: pages, last)

/-- **Every change is delivered, once and in order**, and an empty page says that none is left. -/
theorem follow_delivers {reads : List (List MailboxChangeRow × ℕ)} {cursor : String}
    (h : Feeds normalizeNFC table)
    (hgrows : (reads.map Prod.fst ++ [table]).Pairwise fun before later => before <+: later)
    (hlimits : ∀ read ∈ reads, 0 < read.2 ∧ read.2 ≤ MAILBOX_CHANGE_LIMITS.maxPageSize)
    (hcursor : decodeMailboxChangeCursor cursor = .ok after)
    (hle : ∀ read ∈ reads, after ≤ maxSequence read.1) :
    ∃ pages last n, follow normalizeNFC reads cursor = .ok (pages, last) ∧
      decodeMailboxChangeCursor last = .ok n ∧
      (pages.flatMap fun page => page.changes.map MailboxChange.row) ++ rowsAfter table n =
        rowsAfter table after ∧
      List.Forall₂ (fun read page => page.changes = [] →
        ∃ sent, decodeMailboxChangeCursor page.nextCursor = .ok sent ∧
          rowsAfter read.1 sent = []) reads pages := by
  induction reads generalizing cursor after with
  | nil => exact ⟨[], cursor, after, rfl, hcursor, rfl, .nil⟩
  | cons read reads ih =>
      obtain ⟨before, limit⟩ := read
      obtain ⟨hfirst, hrest⟩ := List.pairwise_cons.mp hgrows
      obtain ⟨⟨hpos, hlimit⟩, hlimits⟩ := List.forall_mem_cons.mp hlimits
      obtain ⟨hbefore, hle⟩ := List.forall_mem_cons.mp hle
      have hprefix : before <+: table := hfirst table (List.mem_append_right _ List.mem_cons_self)
      obtain ⟨page, hread, hpage, haccepted⟩ :=
        readMailboxChanges_after (h.of_prefix hprefix) limit hcursor hbefore hpos hlimit
      obtain ⟨-, hlast⟩ := lastSequence_le hbefore limit
      have hnext : ∀ read ∈ reads, lastSequence after ((rowsAfter before after).take limit) ≤
          maxSequence read.1 := by
        intro read hmem
        have hlater : read.1 ∈ reads.map Prod.fst := List.mem_map_of_mem hmem
        have hfinal : read.1 <+: table :=
          (List.pairwise_append.mp hrest).2.2 read.1 hlater table List.mem_cons_self
        exact hlast.trans (maxSequence_mono (h.of_prefix hfinal)
          (hfirst read.1 (List.mem_append_left _ hlater)))
      obtain ⟨pages, last, n, hfollow, hn, hdelivered, hempty⟩ :=
        ih hrest hlimits hpage.cursor hnext
      refine ⟨page :: pages, last, n, ?_, hn, ?_, .cons (fun hnil => ?_) hempty⟩
      · exact bind_eq_ok.mpr ⟨after, hcursor, bind_eq_ok.mpr ⟨page, hread,
          bind_eq_ok.mpr ⟨page, haccepted, bind_eq_ok.mpr ⟨_, hfollow, rfl⟩⟩⟩⟩
      · rw [List.flatMap_cons, List.append_assoc, hdelivered]
        exact hpage.split h hprefix hbefore
      · refine ⟨_, hpage.cursor, ?_⟩
        have hrows := hpage.rows
        rw [hnil, List.map_nil] at hrows
        have hnone : rowsAfter before after = [] := by
          refine (List.take_eq_nil_iff.mp hrows.symm).resolve_left ?_
          omega
        rw [rowsAfter_lastSequence (h.of_prefix hprefix).increasing, hnone, List.drop_nil]

/-- A change of a message. -/
def messageChange (sequence : ℤ) : MailboxChange where
  sequence := sequence
  committedAt := "2026-01-01T00:00:00.000Z"
  resource := .message
  entityId := "m1"
  parentId := none
  operation := .updated

theorem messageChange_valid (h : sequence ∈ [(1 : ℤ), 2, 3]) :
    Valid id (messageChange sequence).row (messageChange sequence) := by
  refine bind_eq_ok.mpr ⟨_, rfl, bind_eq_ok.mpr ⟨(), require_eq_ok.mpr
    (decide_eq_true changeKeys_sorted), ?_⟩⟩
  simp only [List.mem_cons, List.not_mem_nil, or_false] at h
  rcases h with rfl | rfl | rfl <;> decide +kernel

def threeRows : List MailboxChangeRow := [1, 2, 3].map fun sequence => (messageChange sequence).row

theorem threeRows_feed : Feeds id threeRows where
  increasing := by simp [threeRows, messageChange, MailboxChange.row]
  valid := by
    refine List.forall_mem_map.mpr fun sequence hsequence => ?_
    exact ⟨_, messageChange_valid hsequence⟩

/-- Two changes in pages of one, and a third that is added meanwhile. -/
theorem follow_delivers_three : ∃ cursor pages last n,
    follow id [(threeRows.take 1, 1), (threeRows.take 2, 1)] cursor = .ok (pages, last) ∧
    decodeMailboxChangeCursor last = .ok n ∧
    (pages.flatMap fun page => page.changes.map MailboxChange.row) ++ rowsAfter threeRows n =
      rowsAfter threeRows 0 := by
  obtain ⟨cursor, hcursor⟩ := @encode_of_safe 0 rfl le_rfl
  have hgrows : ([(threeRows.take 1, 1), (threeRows.take 2, 1)].map Prod.fst ++
      [threeRows]).Pairwise fun before later => before <+: later := by
    decide
  obtain ⟨pages, last, n, hfollow, hn, hdelivered, -⟩ := follow_delivers threeRows_feed hgrows
    (by decide) (decode_of_encode hcursor) (by decide)
  exact ⟨cursor, pages, last, n, hfollow, hn, hdelivered⟩

end MailPortal.Feed
