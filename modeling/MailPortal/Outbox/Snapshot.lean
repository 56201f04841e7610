import MailPortal.Lib.Json
import MailPortal.Outbox.Records

/-!
# Stored Snapshots

The codec of outbound snapshots in `outbound-storage.ts`: the envelope that
`serializeOutboundSnapshot` writes, and what `deserializeOutboundSnapshot` accepts of it. Both
work on JSON values as a whole, since a snapshot keeps the properties the reader does not look at.

`ValidSnapshot` is the reader's predicate, told by what a snapshot has instead of by the tests
that are made.

Main results:

* `snapshot_round_trip` : a valid snapshot reads back as it was; what is read is valid; and what
  is read from an envelope of version 2 is written again, and reads back as it was when its
  numbers are finite.
* `snapshot_not_read_back` : an envelope of version 1 may hold an empty reference, and a number
  out of range does not read back.
-/

namespace MailPortal.Outbox

variable {v : Option Json} {key : String} {toLowerCase : String → String} {s : Json}
variable {items ids : List String} {values : List Json}

/-! ### Values -/

/-- A property of a value, `none` for `undefined`. -/
def field (v : Json) (key : String) : Option Json :=
  match v with
  | .obj members => (members.find? fun m => m.1 = key).map Prod.snd
  | _ => none

/-- `value && typeof value === "object"`. -/
def isObject : Json → Bool
  | .arr _ => true
  | .obj _ => true
  | _ => false

/-- `typeof value === "string"`. -/
def asString : Json → Option String
  | .str s => some s
  | _ => none

/-- `Number.isInteger`, with the integer. -/
def asInteger : Json → Option ℤ
  | .num (some q) => if q.den = 1 then some q.num else none
  | _ => none

/-- The entries of an array of strings. -/
def asStrings : Json → Option (List String)
  | .arr items => items.mapM asString
  | _ => none

/-- `delete snapshot[key]`. -/
def deleteField (v : Json) (key : String) : Json :=
  match v with
  | .obj members => .obj (members.filter fun m => m.1 ≠ key)
  | v => v

/-! ### The tests of the reader -/

def normalizeMailAddress (toLowerCase : String → String) (value : String) : Option String :=
  let address := toLowerCase (trim value)
  let cs := address.toList
  -- `at <= 0`, `at !== lastIndexOf`, `at === length - 1` and white space
  if cs.count '@' ≠ 1 || cs.head? = some '@' || cs.getLast? = some '@' || cs.any isTrimmed then
    none
  else some address

/-- A property is a string that is not empty. -/
def nonEmptyField (v : Json) (key : String) : Bool :=
  ((field v key).bind asString).any fun s => s ≠ ""

def isAttachmentByteIdentity (value : Json) : Bool :=
  isObject value && nonEmptyField value "id" &&
    (((field value "byteLength").bind asInteger).any fun n => 0 ≤ n) &&
    (((field value "sha256").bind asString).any fun s => isSha256Hex s) &&
    nonEmptyField value "filename" && nonEmptyField value "mimetype" &&
    ((field value "disposition").bind asString = some "attachment" ||
      (field value "disposition").bind asString = some "inline") &&
    ((field value "contentId").isNone || nonEmptyField value "contentId") &&
    ((field value "disposition").bind asString = some "inline" || (field value "contentId").isNone)

/-- The identifiers of a manifest. -/
def manifestIds (values : List Json) : List String :=
  values.filterMap fun value => (field value "id").bind asString

def hasExactAttachmentByteManifest (attachmentIds : List String) (value : Option Json) : Bool :=
  match value with
  | some (.arr values) =>
      if values.all isAttachmentByteIdentity then
        (manifestIds values).Nodup && (manifestIds values).length = attachmentIds.length &&
          (sorted (manifestIds values)).zipIdx.all fun (id, index) =>
            (sorted attachmentIds)[index]? = some id
      else false
  | _ => false

def deliveryKinds : List String := ["compose", "reply", "forward", "bulk"]

def hasValidSourceDraftReference (snapshot : Json) : Bool :=
  let hasDraftId := (field snapshot "draftId").isSome
  let hasDraftVersion := (field snapshot "draftVersion").isSome
  if !hasDraftId && !hasDraftVersion then true
  else
    hasDraftId && hasDraftVersion && nonEmptyField snapshot "draftId" &&
      ((field snapshot "draftVersion").bind asInteger).any fun n => 1 ≤ n

def isStringArray (value : Option Json) (unique allowEmpty : Bool) : Bool :=
  (value.bind asStrings).any fun items =>
    items.all (fun item => allowEmpty || item ≠ "") && (!unique || items.Nodup)

def isAddressArray (toLowerCase : String → String) (value : Option Json) : Bool :=
  (value.bind asStrings).any fun items =>
    items.all fun item => normalizeMailAddress toLowerCase item = some item

/-- The length of an array. -/
def lengthOf : Option Json → ℕ
  | some (.arr items) => items.length
  | _ => 0

/-! ### The codec -/

def snapshotEnvelopeKind : String := "mail-portal/outbound-snapshot"

inductive SnapshotEnvelopeVersion
  | v1
  | v2
  deriving DecidableEq

variable {version : SnapshotEnvelopeVersion}

def SnapshotEnvelopeVersion.number : SnapshotEnvelopeVersion → ℚ
  | .v1 => 1
  | .v2 => 2

/-- The version of an envelope. -/
def envelopeVersion (envelope : Json) : Option SnapshotEnvelopeVersion :=
  match field envelope "version" with
  | some (.num (some q)) => if q = 1 then some .v1 else if q = 2 then some .v2 else none
  | _ => none

def snapshotEnvelope (snapshot : Json) : Json :=
  .obj [("kind", .str snapshotEnvelopeKind),
    ("version", .num (some SnapshotEnvelopeVersion.v2.number)), ("snapshot", snapshot)]

/-- `serializeOutboundSnapshot`; `none` when it throws. Its type makes the attachment identifiers
an array of strings. -/
def serializeOutboundSnapshot (snapshot : Json) : Option String := do
  let attachmentIds ← (field snapshot "attachmentIds").bind asStrings
  guard (hasExactAttachmentByteManifest attachmentIds (field snapshot "attachmentByteIdentities"))
  some (Json.stringify (snapshotEnvelope snapshot))

/-- What the reader asks of a snapshot before its manifest. -/
def checkSnapshot (toLowerCase : String → String) (version : SnapshotEnvelopeVersion)
    (snapshot : Json) : Bool :=
  let mailboxId := ((field snapshot "mailboxId").bind asString).bind
    (normalizeMailAddress toLowerCase)
  mailboxId.isSome && (field snapshot "mailboxId").bind asString = mailboxId &&
    hasValidSourceDraftReference snapshot &&
    (((field snapshot "kind").bind asString).any fun kind => kind ∈ deliveryKinds) &&
    isAddressArray toLowerCase (field snapshot "to") &&
    isAddressArray toLowerCase (field snapshot "cc") &&
    isAddressArray toLowerCase (field snapshot "bcc") &&
    lengthOf (field snapshot "to") + lengthOf (field snapshot "cc") +
      lengthOf (field snapshot "bcc") ≠ 0 &&
    (((field snapshot "from").bind asString).any fun sender =>
      normalizeMailAddress toLowerCase sender = mailboxId) &&
    ((field snapshot "subject").bind asString).isSome &&
    ((field snapshot "html").isNone || ((field snapshot "html").bind asString).isSome) &&
    ((field snapshot "text").isNone || ((field snapshot "text").bind asString).isSome) &&
    ((field snapshot "inReplyTo").isNone || nonEmptyField snapshot "inReplyTo") &&
    ((field snapshot "references").isNone ||
      isStringArray (field snapshot "references") false (version = .v1)) &&
    nonEmptyField snapshot "threadId" &&
    isStringArray (field snapshot "attachmentIds") true false &&
    ((field snapshot "sourceDraftAttachmentIds").isNone ||
      isStringArray (field snapshot "sourceDraftAttachmentIds") true false)

def deserializeOutboundSnapshot (toLowerCase : String → String) (rawHeaders : Option String) :
    Option Json := do
  let text ← rawHeaders
  guard (text ≠ "")
  let envelope ← Json.parse text
  guard (isObject envelope)
  guard ((field envelope "kind").bind asString = some snapshotEnvelopeKind)
  let version ← envelopeVersion envelope
  let snapshot ← field envelope "snapshot"
  guard (isObject snapshot)
  guard (checkSnapshot toLowerCase version snapshot)
  match version with
  | .v2 => do
      let attachmentIds ← (field snapshot "attachmentIds").bind asStrings
      guard (hasExactAttachmentByteManifest attachmentIds
        (field snapshot "attachmentByteIdentities"))
      some snapshot
  | .v1 => some (deleteField snapshot "attachmentByteIdentities")

/-! ### The reader's predicate -/

/-- A property is a text that is not empty. -/
def HasText (v : Json) (key : String) : Prop := ∃ s, field v key = some (.str s) ∧ s ≠ ""

/-- A property is a list of texts. -/
def HasStrings (v : Json) (key : String) (items : List String) : Prop :=
  field v key = some (.arr (items.map .str))

/-- The identity of an attachment's bytes. Only an inline attachment has a content identifier. -/
structure ValidIdentity (value : Json) (id : String) : Prop where
  identifier : field value "id" = some (.str id) ∧ id ≠ ""
  byteLength : ∃ n : ℕ, field value "byteLength" = some (.num (some n))
  sha256 : ∃ s, field value "sha256" = some (.str s) ∧ isSha256Hex s = true
  filename : HasText value "filename"
  mimetype : HasText value "mimetype"
  disposition :
    field value "disposition" = some (.str "attachment") ∧ field value "contentId" = none ∨
      field value "disposition" = some (.str "inline") ∧
        (field value "contentId" = none ∨ HasText value "contentId")

/-- An exact manifest: each attachment has one identity, in some order. -/
def ExactManifest (attachmentIds : List String) (value : Option Json) : Prop :=
  ∃ values ids, value = some (.arr values) ∧ List.Forall₂ ValidIdentity values ids ∧ ids.Nodup ∧
    ids.Perm attachmentIds

/-- The reader's predicate, but for the manifest. -/
structure ReadableSnapshot (toLowerCase : String → String) (version : SnapshotEnvelopeVersion)
    (s : Json) : Prop where
  mailbox : ∃ mailboxId sender, field s "mailboxId" = some (.str mailboxId) ∧
    normalizeMailAddress toLowerCase mailboxId = some mailboxId ∧
    field s "from" = some (.str sender) ∧ normalizeMailAddress toLowerCase sender = some mailboxId
  draft : field s "draftId" = none ∧ field s "draftVersion" = none ∨
    HasText s "draftId" ∧ ∃ n : ℕ, 1 ≤ n ∧ field s "draftVersion" = some (.num (some n))
  kind : ∃ kind ∈ deliveryKinds, field s "kind" = some (.str kind)
  recipients : ∃ receivers copies blinds, HasStrings s "to" receivers ∧ HasStrings s "cc" copies ∧
    HasStrings s "bcc" blinds ∧ receivers ++ copies ++ blinds ≠ [] ∧
    ∀ a ∈ receivers ++ copies ++ blinds, normalizeMailAddress toLowerCase a = some a
  subject : ∃ t, field s "subject" = some (.str t)
  html : field s "html" = none ∨ ∃ t, field s "html" = some (.str t)
  text : field s "text" = none ∨ ∃ t, field s "text" = some (.str t)
  inReplyTo : field s "inReplyTo" = none ∨ HasText s "inReplyTo"
  references : field s "references" = none ∨
    ∃ items, HasStrings s "references" items ∧ (version = .v2 → "" ∉ items)
  threadId : HasText s "threadId"
  attachments : ∃ ids, HasStrings s "attachmentIds" ids ∧ "" ∉ ids ∧ ids.Nodup
  sourceDraftAttachments : field s "sourceDraftAttachmentIds" = none ∨
    ∃ ids, HasStrings s "sourceDraftAttachmentIds" ids ∧ "" ∉ ids ∧ ids.Nodup

/-- What the reader asks of the manifest: in an envelope of version 1 there is none. -/
def ManifestOf (s : Json) : SnapshotEnvelopeVersion → Prop
  | .v1 => field s "attachmentByteIdentities" = none
  | .v2 => ∃ ids, HasStrings s "attachmentIds" ids ∧
      ExactManifest ids (field s "attachmentByteIdentities")

/-- **The reader's predicate.** -/
def ValidSnapshot (toLowerCase : String → String) (version : SnapshotEnvelopeVersion)
    (s : Json) : Prop :=
  ReadableSnapshot toLowerCase version s ∧ ManifestOf s version

/-! ### The tests tell the predicate -/

theorem asString_iff {s : String} : v.bind asString = some s ↔ v = some (.str s) := by
  constructor
  · intro h
    obtain ⟨w, rfl, hw⟩ := Option.bind_eq_some_iff.mp h
    cases w <;> cases hw
    rfl
  · rintro rfl
    rfl

theorem asString_isSome : (v.bind asString).isSome = true ↔ ∃ s, v = some (.str s) := by
  rw [Option.isSome_iff_exists]
  exact exists_congr fun s => asString_iff

theorem nonEmptyField_iff {v : Json} : nonEmptyField v key = true ↔ HasText v key := by
  rw [nonEmptyField, Option.any_eq_true]
  exact exists_congr fun s => and_congr asString_iff decide_eq_true_iff

theorem asInteger_iff {n : ℤ} : v.bind asInteger = some n ↔ v = some (.num (some n)) := by
  constructor
  · intro h
    obtain ⟨w, rfl, hw⟩ := Option.bind_eq_some_iff.mp h
    unfold asInteger at hw
    split at hw
    · rename_i q
      split at hw
      · rename_i hden
        cases hw
        rw [Rat.coe_int_num_of_den_eq_one hden]
      · cases hw
    · cases hw
  · rintro rfl
    rfl

/-- A property is a natural number from a bound on. -/
theorem naturalField_iff {low : ℕ} :
    ((v.bind asInteger).any fun n => (low : ℤ) ≤ n) = true ↔
      ∃ n : ℕ, low ≤ n ∧ v = some (.num (some n)) := by
  rw [Option.any_eq_true]
  constructor
  · rintro ⟨n, hn, hle⟩
    have hlow : (low : ℤ) ≤ n := of_decide_eq_true hle
    obtain ⟨k, rfl⟩ := Int.eq_ofNat_of_zero_le ((Int.natCast_nonneg low).trans hlow)
    exact ⟨k, by exact_mod_cast hlow, asInteger_iff.mp hn⟩
  · rintro ⟨k, hle, hv⟩
    exact ⟨k, asInteger_iff.mpr hv, decide_eq_true (by exact_mod_cast hle)⟩

theorem mapM_asString {items : List Json} {texts : List String} :
    items.mapM asString = some texts ↔ items = texts.map .str := by
  induction items generalizing texts with
  | nil => cases texts <;> simp
  | cons item items ih =>
      rw [List.mapM_cons]
      constructor
      · intro h
        obtain ⟨t, ht, htail⟩ := Option.bind_eq_some_iff.mp h
        obtain ⟨ts, hts, heq⟩ := Option.bind_eq_some_iff.mp htail
        cases item <;> cases ht
        cases heq
        rw [ih.mp hts, List.map_cons]
      · intro h
        cases texts with
        | nil => cases h
        | cons t ts =>
            obtain ⟨rfl, htail⟩ := List.cons.inj h
            rw [ih.mpr htail]
            rfl

theorem asStrings_iff : v.bind asStrings = some items ↔ v = some (.arr (items.map .str)) := by
  constructor
  · intro h
    obtain ⟨w, rfl, hw⟩ := Option.bind_eq_some_iff.mp h
    cases w with
    | arr values =>
        rw [asStrings, mapM_asString] at hw
        rw [hw]
    | _ => cases hw
  · rintro rfl
    exact mapM_asString.mpr rfl

theorem isStringArray_iff {unique allowEmpty : Bool} :
    isStringArray v unique allowEmpty = true ↔
      ∃ items : List String, v = some (.arr (items.map .str)) ∧
      (allowEmpty = false → "" ∉ items) ∧ (unique = true → items.Nodup) := by
  rw [isStringArray, Option.any_eq_true]
  refine exists_congr fun items => and_congr asStrings_iff ?_
  rw [Bool.and_eq_true]
  refine and_congr ?_ ?_
  · cases allowEmpty with
    | true => simp
    | false =>
        simp only [Bool.false_or, List.all_eq_true, decide_eq_true_eq, forall_true_left]
        exact ⟨fun h hmem => h "" hmem rfl, fun h item hitem heq => h (heq ▸ hitem)⟩
  · cases unique <;> simp

theorem isAddressArray_iff :
    isAddressArray toLowerCase v = true ↔
      ∃ items : List String, v = some (.arr (items.map .str)) ∧
      ∀ a ∈ items, normalizeMailAddress toLowerCase a = some a := by
  rw [isAddressArray, Option.any_eq_true]
  refine exists_congr fun items => and_congr asStrings_iff ?_
  simp only [List.all_eq_true, decide_eq_true_eq]

theorem isObject_of_field {v w : Json} (h : field v key = some w) : isObject v = true := by
  cases v <;> first | rfl | cases h

theorem isAttachmentByteIdentity_iff {v : Json} :
    isAttachmentByteIdentity v = true ↔ ∃ id, ValidIdentity v id := by
  have hlength := @naturalField_iff (field v "byteLength") 0
  have hsha : (((field v "sha256").bind asString).any fun s => isSha256Hex s) = true ↔
      ∃ s, field v "sha256" = some (.str s) ∧ isSha256Hex s = true := by
    rw [Option.any_eq_true]
    exact exists_congr fun s => and_congr_left' asString_iff
  rw [isAttachmentByteIdentity]
  simp only [Bool.and_eq_true, Bool.or_eq_true, decide_eq_true_eq, Option.isNone_iff_eq_none,
    nonEmptyField_iff, asString_iff, hsha]
  constructor
  · rintro ⟨⟨⟨⟨⟨⟨⟨⟨-, ⟨id, hid⟩⟩, hbytes⟩, hsha⟩, hname⟩, hmime⟩, hdisposition⟩, hcontent⟩, hinline⟩
    obtain ⟨n, -, hn⟩ := hlength.mp hbytes
    refine ⟨id, hid, ⟨n, hn⟩, hsha, hname, hmime, ?_⟩
    rcases hdisposition with hattachment | hd
    · refine .inl ⟨hattachment, hinline.resolve_left fun h => ?_⟩
      rw [hattachment] at h
      simp at h
    · exact .inr ⟨hd, hcontent⟩
  · rintro ⟨id, hid, ⟨n, hn⟩, hsha, hname, hmime, hdisposition⟩
    have hbytes := hlength.mpr ⟨n, Nat.zero_le n, hn⟩
    refine ⟨⟨⟨⟨⟨⟨⟨⟨isObject_of_field hid.1, ⟨id, hid⟩⟩, hbytes⟩, hsha⟩, hname⟩, hmime⟩, ?_⟩, ?_⟩,
      ?_⟩
    · exact hdisposition.imp And.left And.left
    · exact hdisposition.elim (fun h => .inl h.2) And.right
    · exact hdisposition.elim (fun h => .inr h.2) fun h => .inl h.1

theorem manifestIds_cons {v : Json} {id : String} (values : List Json)
    (h : field v "id" = some (.str id)) : manifestIds (v :: values) = id :: manifestIds values :=
  List.filterMap_cons_some (f := fun value => (field value "id").bind asString) (asString_iff.mpr h)

/-- The identifiers of a manifest are those of its identities. -/
theorem forall₂_manifestIds :
    values.all isAttachmentByteIdentity = true ↔
      List.Forall₂ ValidIdentity values (manifestIds values) := by
  induction values with
  | nil => exact ⟨fun _ => .nil, fun _ => rfl⟩
  | cons v values ih =>
      rw [List.all_cons, Bool.and_eq_true, ih, isAttachmentByteIdentity_iff]
      constructor
      · rintro ⟨⟨id, hv⟩, hvalues⟩
        rw [manifestIds_cons values hv.identifier.1]
        exact .cons hv hvalues
      · intro h
        cases hid : (field v "id").bind asString with
        | none =>
            -- an entry without an identifier leaves the manifest shorter
            have hnone : manifestIds (v :: values) = manifestIds values :=
              List.filterMap_cons_none (f := fun value => (field value "id").bind asString) hid
            have hlength := h.length_eq
            have hle : (manifestIds values).length ≤ values.length := List.length_filterMap_le _ _
            rw [hnone, List.length_cons] at hlength
            omega
        | some id =>
            rw [manifestIds_cons values (asString_iff.mp hid)] at h
            cases h with
            | cons hv hvalues => exact ⟨⟨id, hv⟩, hvalues⟩

theorem manifestIds_of_forall₂ (h : List.Forall₂ ValidIdentity values ids) :
    manifestIds values = ids := by
  induction h with
  | nil => rfl
  | cons hv _ ih => rw [manifestIds_cons _ hv.identifier.1, ih]

/-- Two lists of one length have the same entries in order. -/
theorem zipIdx_all_iff {xs ys : List String} (h : xs.length = ys.length) :
    (xs.zipIdx.all fun (id, index) => decide (ys[index]? = some id)) = true ↔ xs = ys := by
  rw [List.all_eq_true]
  constructor
  · intro hall
    refine List.ext_getElem? fun i => ?_
    by_cases hi : i < xs.length
    · have hmem : (xs[i], i) ∈ xs.zipIdx :=
        List.mem_zipIdx_iff_getElem?.mpr (List.getElem?_eq_getElem hi)
      rw [List.getElem?_eq_getElem hi]
      exact (of_decide_eq_true (hall _ hmem)).symm
    · rw [List.getElem?_eq_none (not_lt.mp hi), List.getElem?_eq_none (h ▸ not_lt.mp hi)]
  · rintro rfl ⟨id, index⟩ hmem
    exact decide_eq_true (List.mem_zipIdx_iff_getElem?.mp hmem)

theorem hasExactAttachmentByteManifest_iff {value : Option Json} :
    hasExactAttachmentByteManifest ids value = true ↔ ExactManifest ids value := by
  constructor
  · intro h
    unfold hasExactAttachmentByteManifest at h
    split at h
    · rename_i values
      split at h
      · rename_i hvalues
        simp only [Bool.and_eq_true, decide_eq_true_eq] at h
        obtain ⟨⟨hnodup, hlength⟩, hsorted⟩ := h
        have hsame : (sorted (manifestIds values)).length = (sorted ids).length := by
          rw [sorted, sorted, List.length_mergeSort, List.length_mergeSort, hlength]
        exact ⟨values, manifestIds values, rfl, forall₂_manifestIds.mp hvalues, hnodup,
          sorted_eq_iff.mp ((zipIdx_all_iff hsame).mp hsorted)⟩
      · cases h
    · cases h
  · rintro ⟨values, manifest, rfl, hvalues, hnodup, hperm⟩
    have hmanifest := manifestIds_of_forall₂ hvalues
    have hsorted : sorted manifest = sorted ids := sorted_eq_iff.mpr hperm
    have hsame : (sorted manifest).length = (sorted ids).length := by rw [hsorted]
    have hall : values.all isAttachmentByteIdentity = true :=
      forall₂_manifestIds.mpr (hmanifest ▸ hvalues)
    rw [hasExactAttachmentByteManifest]
    simp only [hall, if_true, hmanifest, Bool.and_eq_true, decide_eq_true_eq]
    exact ⟨⟨hnodup, hperm.length_eq⟩, (zipIdx_all_iff hsame).mpr hsorted⟩

theorem hasValidSourceDraftReference_iff :
    hasValidSourceDraftReference s = true ↔
      field s "draftId" = none ∧ field s "draftVersion" = none ∨
        HasText s "draftId" ∧ ∃ n : ℕ, 1 ≤ n ∧ field s "draftVersion" = some (.num (some n)) := by
  have hversion := @naturalField_iff (field s "draftVersion") 1
  rw [hasValidSourceDraftReference]
  by_cases hnone : field s "draftId" = none ∧ field s "draftVersion" = none
  · simp [hnone]
  · have hsome : ¬((!(field s "draftId").isSome && !(field s "draftVersion").isSome) = true) := by
      simpa using hnone
    rw [if_neg hsome, or_iff_right hnone]
    simp only [Bool.and_eq_true, nonEmptyField_iff]
    constructor
    · rintro ⟨⟨-, htext⟩, hn⟩
      exact ⟨htext, hversion.mp hn⟩
    · rintro ⟨htext, n, hn, hfield⟩
      have ⟨t, ht, _⟩ := htext
      exact ⟨⟨⟨by rw [ht]; rfl, by rw [hfield]; rfl⟩, htext⟩, hversion.mpr ⟨n, hn, hfield⟩⟩

theorem lengthOf_strings (h : v = some (.arr (items.map .str))) : lengthOf v = items.length := by
  rw [h, lengthOf, List.length_map]

/-- The recipients of a snapshot. -/
theorem recipients_iff :
    (((isAddressArray toLowerCase (field s "to") = true ∧
      isAddressArray toLowerCase (field s "cc") = true) ∧
      isAddressArray toLowerCase (field s "bcc") = true) ∧
      lengthOf (field s "to") + lengthOf (field s "cc") + lengthOf (field s "bcc") ≠ 0) ↔
    ∃ receivers copies blinds, HasStrings s "to" receivers ∧ HasStrings s "cc" copies ∧
      HasStrings s "bcc" blinds ∧ receivers ++ copies ++ blinds ≠ [] ∧
      ∀ a ∈ receivers ++ copies ++ blinds, normalizeMailAddress toLowerCase a = some a := by
  simp only [isAddressArray_iff]
  constructor
  · rintro ⟨⟨⟨⟨receivers, hto, hreceivers⟩, copies, hcc, hcopies⟩, blinds, hbcc, hblinds⟩, hlength⟩
    rw [lengthOf_strings hto, lengthOf_strings hcc, lengthOf_strings hbcc] at hlength
    refine ⟨receivers, copies, blinds, hto, hcc, hbcc, fun hnil => hlength ?_, fun a ha => ?_⟩
    · rw [← List.length_append, ← List.length_append, hnil, List.length_nil]
    · rcases List.mem_append.mp ha with ha | ha
      · exact (List.mem_append.mp ha).elim (hreceivers a) (hcopies a)
      · exact hblinds a ha
  · rintro ⟨receivers, copies, blinds, hto, hcc, hbcc, hne, hall⟩
    refine ⟨⟨⟨⟨receivers, hto, fun a ha => hall a ?_⟩, copies, hcc, fun a ha => hall a ?_⟩,
      blinds, hbcc, fun a ha => hall a ?_⟩, ?_⟩
    · exact List.mem_append_left _ (List.mem_append_left _ ha)
    · exact List.mem_append_left _ (List.mem_append_right _ ha)
    · exact List.mem_append_right _ ha
    · rw [lengthOf_strings hto, lengthOf_strings hcc, lengthOf_strings hbcc, ← List.length_append,
        ← List.length_append]
      exact fun h => hne (List.length_eq_zero_iff.mp h)

/-- The mailbox of a snapshot is its sender's. -/
theorem mailbox_iff {mailboxId : Option String}
    (hmailbox : mailboxId = ((field s "mailboxId").bind asString).bind
      (normalizeMailAddress toLowerCase)) :
    (mailboxId.isSome = true ∧ (field s "mailboxId").bind asString = mailboxId) ∧
      (((field s "from").bind asString).any fun sender =>
        normalizeMailAddress toLowerCase sender = mailboxId) = true ↔
    ∃ mailboxId sender, field s "mailboxId" = some (.str mailboxId) ∧
      normalizeMailAddress toLowerCase mailboxId = some mailboxId ∧
      field s "from" = some (.str sender) ∧
      normalizeMailAddress toLowerCase sender = some mailboxId := by
  rw [Option.any_eq_true]
  constructor
  · rintro ⟨⟨hsome, heq⟩, sender, hsender, hfrom⟩
    obtain ⟨mailbox, rfl⟩ := Option.isSome_iff_exists.mp hsome
    rw [heq, Option.bind_some] at hmailbox
    exact ⟨mailbox, sender, asString_iff.mp heq, hmailbox.symm, asString_iff.mp hsender,
      of_decide_eq_true hfrom⟩
  · rintro ⟨mailbox, sender, hfield, hnormal, hsender, hfrom⟩
    rw [asString_iff.mpr hfield, Option.bind_some, hnormal] at hmailbox
    rw [hmailbox, asString_iff.mpr hfield]
    exact ⟨⟨rfl, rfl⟩, sender, asString_iff.mpr hsender, decide_eq_true hfrom⟩

/-- **The tests of the reader tell its predicate.** -/
theorem checkSnapshot_iff :
    checkSnapshot toLowerCase version s = true ↔ ReadableSnapshot toLowerCase version s := by
  have hmailbox := @mailbox_iff toLowerCase s _ rfl
  have hrecipients := @recipients_iff toLowerCase s
  have hkind : (((field s "kind").bind asString).any fun kind => kind ∈ deliveryKinds) = true ↔
      ∃ kind ∈ deliveryKinds, field s "kind" = some (.str kind) := by
    rw [Option.any_eq_true]
    refine exists_congr fun kind => ?_
    rw [asString_iff, decide_eq_true_eq, and_comm]
  have hversion : decide (version = .v1) = false ↔ version = .v2 := by cases version <;> decide
  rw [checkSnapshot]
  simp only [Bool.and_eq_true, Bool.or_eq_true, Option.isNone_iff_eq_none,
    nonEmptyField_iff, hasValidSourceDraftReference_iff, asString_isSome, isStringArray_iff, hkind,
    hversion, decide_eq_true_eq, forall_true_left, Bool.false_eq_true, false_implies, and_true]
  constructor
  · rintro ⟨⟨⟨⟨⟨⟨⟨⟨⟨⟨⟨⟨⟨⟨⟨⟨hsome, heq⟩, hdraft⟩, hkind⟩, hto⟩, hcc⟩, hbcc⟩, hlength⟩, hfrom⟩,
      hsubject⟩, hhtml⟩, htext⟩, hreply⟩, hreferences⟩, hthread⟩, hattachments⟩, hsource⟩
    exact
      { mailbox := hmailbox.mp ⟨⟨hsome, heq⟩, hfrom⟩
        draft := hdraft
        kind := hkind
        recipients := hrecipients.mp ⟨⟨⟨hto, hcc⟩, hbcc⟩, hlength⟩
        subject := hsubject
        html := hhtml
        text := htext
        inReplyTo := hreply
        references := hreferences
        threadId := hthread
        attachments := hattachments
        sourceDraftAttachments := hsource }
  · intro h
    obtain ⟨⟨hsome, heq⟩, hfrom⟩ := hmailbox.mpr h.mailbox
    obtain ⟨⟨⟨hto, hcc⟩, hbcc⟩, hlength⟩ := hrecipients.mpr h.recipients
    exact ⟨⟨⟨⟨⟨⟨⟨⟨⟨⟨⟨⟨⟨⟨⟨⟨hsome, heq⟩, h.draft⟩, h.kind⟩, hto⟩, hcc⟩, hbcc⟩, hlength⟩, hfrom⟩,
      h.subject⟩, h.html⟩, h.text⟩, h.inReplyTo⟩, h.references⟩, h.threadId⟩, h.attachments⟩,
      h.sourceDraftAttachments⟩

/-! ### The round trip -/

/-- The envelope of a snapshot reads back. -/
theorem envelope_plain (h : s.Plain) : (snapshotEnvelope s).Plain := by
  have htwo : Double.IsDouble SnapshotEnvelopeVersion.v2.number := by decide +kernel
  refine ⟨by simp, trivial, ⟨rfl, fun q hq => ?_⟩, h, trivial⟩
  cases hq
  exact htwo

theorem field_deleteField_self (v : Json) (key : String) :
    field (deleteField v key) key = none := by
  cases v with
  | obj members =>
      simp only [deleteField, field, Option.map_eq_none_iff, List.find?_eq_none, List.mem_filter]
      rintro m ⟨-, hm⟩
      simpa using hm
  | _ => rfl

theorem field_deleteField_ne (v : Json) {other : String} (h : other ≠ key) :
    field (deleteField v key) other = field v other := by
  cases v with
  | obj members =>
      rw [deleteField, field, field, List.find?_filter]
      congr 2
      funext m
      by_cases hm : m.1 = other
      · simp [hm, h]
      · simp [hm]
  | _ => rfl

theorem deleteField_eq_self {v : Json} (h : field v key = none) : deleteField v key = v := by
  cases v with
  | obj members =>
      rw [field, Option.map_eq_none_iff, List.find?_eq_none] at h
      rw [deleteField, List.filter_eq_self.mpr fun m hm => by simpa using h m hm]
  | _ => rfl

/-- A valid snapshot is read from its envelope. -/
theorem deserialize_valid {text : String} {envelope : Json}
    (hparse : Json.parse text = some envelope)
    (hkind : field envelope "kind" = some (.str snapshotEnvelopeKind))
    (hversion : envelopeVersion envelope = some version)
    (hsnapshot : field envelope "snapshot" = some s) (hs : ValidSnapshot toLowerCase version s) :
    deserializeOutboundSnapshot toLowerCase (some text) = some s := by
  obtain ⟨hreadable, hmanifest⟩ := hs
  obtain ⟨mailboxId, -, hmailbox, -⟩ := hreadable.mailbox
  have hobject := isObject_of_field hmailbox
  have henvelope := isObject_of_field hkind
  have hcheck := checkSnapshot_iff.mpr hreadable
  have hne : text ≠ "" := by
    rintro rfl
    cases hparse
  cases version with
  | v1 =>
      simp [deserializeOutboundSnapshot, hne, hparse, asString_iff.mpr hkind, hversion, hsnapshot,
        henvelope, hobject, hcheck, deleteField_eq_self hmanifest, guard]
  | v2 =>
      obtain ⟨ids, hids, hmanifest⟩ := hmanifest
      have hexact := hasExactAttachmentByteManifest_iff.mpr hmanifest
      simp [deserializeOutboundSnapshot, hne, hparse, asString_iff.mpr hkind, hversion, hsnapshot,
        henvelope, hobject, hcheck, asStrings_iff.mpr hids, hexact, guard]

/-- What a written snapshot reads back as. -/
theorem deserialize_envelope (toLowerCase : String → String) (h : s.Plain)
    (hs : ValidSnapshot toLowerCase .v2 s) :
    deserializeOutboundSnapshot toLowerCase (some (Json.stringify (snapshotEnvelope s))) =
      some s :=
  deserialize_valid (Json.parse_stringify (envelope_plain h)) rfl rfl rfl hs

/-- The reader looks at other properties than the one it deletes. -/
theorem ReadableSnapshot.delete (h : ReadableSnapshot toLowerCase version s) :
    ReadableSnapshot toLowerCase version (deleteField s "attachmentByteIdentities") := by
  have hfield : ∀ key, key ≠ "attachmentByteIdentities" →
      field (deleteField s "attachmentByteIdentities") key = field s key :=
    fun key hkey => field_deleteField_ne s hkey
  rw [← checkSnapshot_iff] at h ⊢
  simp only [checkSnapshot, hasValidSourceDraftReference, nonEmptyField, hfield, ne_eq,
    String.reduceEq, not_false_eq_true]
  exact h

theorem field_over {P : Option ℚ → Prop} {v w : Json} (hv : v.Over P) (h : field v key = some w) :
    w.Over P := by
  cases v with
  | obj members =>
      obtain ⟨m, hm, rfl⟩ := Option.map_eq_some_iff.mp h
      exact Json.overMembers_iff.mp hv.2 m (List.mem_of_find?_eq_some hm)
  | _ => cases h

/-- The version of a stored envelope. -/
def storedVersion (rawHeaders : Option String) : Option SnapshotEnvelopeVersion :=
  (rawHeaders.bind Json.parse).bind envelopeVersion

/-- **What is read is valid.** From an envelope of version 2 it is the snapshot of the envelope. -/
theorem deserialize_sound {rawHeaders : Option String}
    (h : deserializeOutboundSnapshot toLowerCase rawHeaders = some s) :
    ∃ version, storedVersion rawHeaders = some version ∧ ValidSnapshot toLowerCase version s ∧
      (version = .v2 → ∃ envelope, rawHeaders.bind Json.parse = some envelope ∧
        field envelope "snapshot" = some s) := by
  simp only [deserializeOutboundSnapshot, Option.bind_eq_bind, Option.bind_eq_some_iff,
    Option.guard_eq_some'] at h
  obtain ⟨text, rfl, -, -, envelope, hparse, -, -, -, -, version, hversion, snapshot, hsnapshot, -,
    -, -, hcheck, hread⟩ := h
  have hreadable := checkSnapshot_iff.mp hcheck
  have hstored : storedVersion (some text) = some version := by
    rw [storedVersion, Option.bind_some, hparse, Option.bind_some, hversion]
  refine ⟨version, hstored, ?_⟩
  cases version with
  | v1 =>
      cases hread
      exact ⟨⟨hreadable.delete, field_deleteField_self _ _⟩, fun h => absurd h (by decide)⟩
  | v2 =>
      simp only [Option.bind_eq_some_iff, Option.guard_eq_some'] at hread
      obtain ⟨ids, hids, -, hmanifest, heq⟩ := hread
      cases heq
      have hstrings := asStrings_iff.mp (Option.bind_eq_some_iff.mpr hids)
      have hexact := hasExactAttachmentByteManifest_iff.mp hmanifest
      exact ⟨⟨hreadable, ids, hstrings, hexact⟩, fun _ => ⟨envelope, hparse, hsnapshot⟩⟩

/-- A valid snapshot is written. -/
theorem serialize_valid (h : ValidSnapshot toLowerCase .v2 s) :
    serializeOutboundSnapshot s = some (Json.stringify (snapshotEnvelope s)) := by
  obtain ⟨-, ids, hids, hmanifest⟩ := h
  have hexact := hasExactAttachmentByteManifest_iff.mpr hmanifest
  simp [serializeOutboundSnapshot, asStrings_iff.mpr hids, hexact, guard]

/-- **Stored snapshots.** A valid snapshot reads back as it was; what is read satisfies the
reader's predicate for the version of its envelope; and what is read from an envelope of version 2
is written again, and reads back as it was when its numbers are finite. -/
theorem snapshot_round_trip (toLowerCase : String → String) :
    (∀ s : Json, s.Plain → ValidSnapshot toLowerCase .v2 s →
      ∃ text, serializeOutboundSnapshot s = some text ∧
        deserializeOutboundSnapshot toLowerCase (some text) = some s) ∧
    (∀ rawHeaders s, deserializeOutboundSnapshot toLowerCase rawHeaders = some s →
      ∃ version, storedVersion rawHeaders = some version ∧ ValidSnapshot toLowerCase version s) ∧
    (∀ rawHeaders s, deserializeOutboundSnapshot toLowerCase rawHeaders = some s →
      storedVersion rawHeaders = some .v2 →
        ∃ text, serializeOutboundSnapshot s = some text ∧
          (s.Over Json.IsFinite →
            deserializeOutboundSnapshot toLowerCase (some text) = some s)) := by
  refine ⟨fun s hplain hs => ?_, fun rawHeaders s h => ?_, fun rawHeaders s h hv2 => ?_⟩
  · exact ⟨_, serialize_valid hs, deserialize_envelope toLowerCase hplain hs⟩
  · obtain ⟨version, hversion, hs, -⟩ := deserialize_sound h
    exact ⟨version, hversion, hs⟩
  · obtain ⟨version, hversion, hs, henvelope⟩ := deserialize_sound h
    obtain rfl : version = .v2 := Option.some.inj (hversion.symm.trans hv2)
    obtain ⟨envelope, hparse, hsnapshot⟩ := henvelope rfl
    obtain ⟨text, -, hparse⟩ := Option.bind_eq_some_iff.mp hparse
    have hnumbers : s.Over Json.IsNumber := field_over (Json.parse_sound hparse) hsnapshot
    refine ⟨_, serialize_valid hs, fun hfinite => ?_⟩
    exact deserialize_envelope toLowerCase (hfinite.and hnumbers) hs

/-- A message without a body to one receiver, with more properties. -/
def plainSnapshot (more : List (String × Json)) : Json :=
  .obj ([("mailboxId", .str "team@example.com"), ("kind", .str "compose"),
    ("to", .arr [.str "client@example.com"]), ("cc", .arr []), ("bcc", .arr []),
    ("from", .str "team@example.com"), ("subject", .str "Hello"), ("threadId", .str "thread-1"),
    ("attachmentIds", .arr [])] ++ more)

/-- One message, written and read. -/
theorem snapshot_round_trip_sample :
    ∃ text, serializeOutboundSnapshot (plainSnapshot [("attachmentByteIdentities", .arr [])]) =
        some text ∧
      deserializeOutboundSnapshot id (some text) =
        some (plainSnapshot [("attachmentByteIdentities", .arr [])]) := by
  refine (snapshot_round_trip id).1 _ ?_ ?_
  · refine ⟨by decide, trivial, trivial, ⟨trivial, trivial⟩, trivial, trivial, trivial, trivial,
      trivial, trivial, trivial, trivial⟩
  · exact ⟨checkSnapshot_iff.mp (by decide +kernel), [], rfl, [], [], rfl, .nil,
      List.nodup_nil, .nil⟩

/-- An envelope of version 1 with an empty reference. -/
def emptyReference : Json :=
  .obj [("kind", .str snapshotEnvelopeKind), ("version", .num (some 1)),
    ("snapshot", plainSnapshot [("references", .arr [.str ""])])]

/-- The text of an envelope of version 2, with a number out of range in a property of no meaning. -/
def hugeNumber : List Char :=
  ["\x7b\"kind\":\"mail-portal/", "outbound-snapshot\",", "\"version\":2,", "\"snapshot\":\x7b",
    "\"mailboxId\":\"a@b.c\",", "\"kind\":\"compose\",", "\"to\":[\"d@e.f\"],", "\"cc\":[],",
    "\"bcc\":[],", "\"from\":\"a@b.c\",", "\"subject\":\"\",", "\"threadId\":\"t\",",
    "\"attachmentIds\":[],", "\"attachmentByteIdentities\":[],", "\"extra\":1e400\x7d\x7d"].flatMap
    String.toList

/-- What is read from the text, and from what is written for it. -/
def readTwice : Option (Json × Json × Json) := do
  let envelope ← (Json.run ⟨.value, []⟩ hugeNumber).bind Json.finish
  let s ← field envelope "snapshot"
  let envelope' ← (Json.run ⟨.value, []⟩ (snapshotEnvelope s).chars).bind Json.finish
  some (envelope, s, envelope')

def isInfinite : Json → Bool
  | .num none => true
  | _ => false

/-- A reading as the round trip has it: valid, with a number that is not finite, for which the
second reading has `null`. -/
def lostNumber (reading : Json × Json × Json) : Bool :=
  let envelope := reading.1
  let s := reading.2.1
  let envelope' := reading.2.2
  decide ((field envelope "kind").bind asString = some snapshotEnvelopeKind) &&
    decide (envelopeVersion envelope = some .v2) &&
    decide (envelopeVersion envelope' = some .v2) && checkSnapshot id .v2 s &&
    decide ((field s "attachmentIds").bind asStrings = some []) &&
    hasExactAttachmentByteManifest [] (field s "attachmentByteIdentities") &&
    (field s "extra").any isInfinite &&
    !((field envelope' "snapshot").bind fun s' => field s' "extra").any isInfinite

/-- **An empty reference, and a number that does not read back.** From an envelope of version 1 a
snapshot is read whose only reference is empty; from one of version 2 a snapshot is read with a
number that is not finite, for which `null` is written. -/
theorem snapshot_not_read_back :
    (∃ rawHeaders s, storedVersion rawHeaders = some .v1 ∧
      deserializeOutboundSnapshot id rawHeaders = some s ∧ HasStrings s "references" [""]) ∧
    (∃ rawHeaders s text, storedVersion rawHeaders = some .v2 ∧
      deserializeOutboundSnapshot id rawHeaders = some s ∧
      serializeOutboundSnapshot s = some text ∧
      deserializeOutboundSnapshot id (some text) ≠ some s) := by
  constructor
  · have hone : Double.IsDouble 1 := by decide +kernel
    have hplain : emptyReference.Plain := by
      refine ⟨by decide, trivial, ⟨rfl, fun q hq => ?_⟩, ⟨by decide, trivial, trivial,
        ⟨trivial, trivial⟩, trivial, trivial, trivial, trivial, trivial, trivial,
        ⟨trivial, trivial⟩, trivial⟩, trivial⟩
      cases hq
      exact hone
    have hs : ReadableSnapshot id .v1 (plainSnapshot [("references", .arr [.str ""])]) :=
      checkSnapshot_iff.mp (by decide +kernel)
    have hparse := Json.parse_stringify hplain
    refine ⟨some (Json.stringify emptyReference), plainSnapshot [("references", .arr [.str ""])],
      ?_, ?_, rfl⟩
    · rw [storedVersion, Option.bind_some, hparse]
      rfl
    · exact deserialize_valid hparse rfl rfl rfl ⟨hs, rfl⟩
  · have hread : readTwice.any lostNumber = true := by decide +kernel
    obtain ⟨⟨envelope, s, envelope'⟩, htwice, hread⟩ := (Option.any_eq_true _ _).mp hread
    simp only [lostNumber, Bool.and_eq_true, decide_eq_true_eq] at hread
    obtain ⟨⟨⟨⟨⟨⟨⟨hkind, hversion⟩, hversion'⟩, hcheck⟩, hids⟩, hmanifest⟩, hinfinite⟩, hnull⟩ :=
      hread
    simp only [readTwice, Option.bind_eq_bind, Option.bind_eq_some_iff] at htwice
    obtain ⟨_, hrun, _, hsnapshot, _, hrun', heq⟩ := htwice
    cases heq
    have hparse := (Json.parse_ofList hugeNumber).trans (Option.bind_eq_some_iff.mpr hrun)
    have hparse' : Json.parse (Json.stringify (snapshotEnvelope s)) = some envelope' :=
      (Json.parse_ofList _).trans (Option.bind_eq_some_iff.mpr hrun')
    have hs : ValidSnapshot id .v2 s :=
      ⟨checkSnapshot_iff.mp hcheck, [], asStrings_iff.mp hids,
        hasExactAttachmentByteManifest_iff.mp hmanifest⟩
    have hstored : storedVersion (some (String.ofList hugeNumber)) = some .v2 := by
      rw [storedVersion, Option.bind_some, hparse, Option.bind_some, hversion]
    refine ⟨some (String.ofList hugeNumber), s, _, hstored,
      deserialize_valid hparse (asString_iff.mp hkind) hversion hsnapshot hs,
      serialize_valid hs, fun hsame => ?_⟩
    obtain ⟨version, hstored', -, henvelope⟩ := deserialize_sound hsame
    rw [storedVersion, Option.bind_some, hparse', Option.bind_some, hversion'] at hstored'
    obtain ⟨_, hparse'', hsnapshot'⟩ := henvelope (Option.some.inj hstored').symm
    cases hparse'.symm.trans hparse''
    rw [hsnapshot', Option.bind_some, hinfinite] at hnull
    cases hnull

end MailPortal.Outbox
