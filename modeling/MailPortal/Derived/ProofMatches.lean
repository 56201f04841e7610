import MailPortal.Derived.RepairAttempt
import MailPortal.Lib.Sorting

/-!
# Proofs Compared as Multisets

Two proofs of derived objects are to match when they name the same objects, in any order. The
entries are sorted by `localeCompare` of their keys and compared one by one; likewise the text of a
repair command, of which a fingerprint is made, has its attachments and body objects sorted.

`localeCompare` is a total preorder: it may call different texts equal. Two different keys that it
calls equal are sorted in the order in which they came, if the comparator is consistent, and anyhow
if it is not (`Sorting.ArraySort`).

Main results:

* `derived_content_canonical` : proofs and commands are compared as multisets just if no two
  different keys or identifiers are called equal.
* `equivalent_keys_differ` : two keys that are canonically equivalent make a proof differ from its
  rearrangement.
-/

namespace MailPortal.Derived

open Json Sorting

variable {entries : List DerivedObject}

/-! ### Proofs -/

/-- The comparator of `sortedProofEntries`. -/
def entryOrder (host : HostRuntime) (left right : DerivedObject) : Ordering :=
  if left.r2Key = right.r2Key then compare left.byteLength right.byteLength
  else host.localeCompare left.r2Key right.r2Key

def sortedProofEntries (array : ArraySort) (host : HostRuntime) (entries : List DerivedObject) :
    List DerivedObject :=
  array.sort (entryOrder host) entries

def sortedProof (array : ArraySort) (host : HostRuntime) (proof : DerivedContentProof) :
    DerivedContentProof :=
  ⟨sortedProofEntries array host proof.attachments, sortedProofEntries array host proof.bodyObjects⟩

def exactEntriesMatch (leftEntries rightEntries : List DerivedObject) : Bool :=
  leftEntries.length = rightEntries.length &&
    leftEntries.zipIdx.all fun (entry, index) =>
      some entry.r2Key = rightEntries[index]?.map (·.r2Key) &&
        some entry.byteLength = rightEntries[index]?.map (·.byteLength)

def exactDerivedContentProofMatches (array : ArraySort) (host : HostRuntime)
    (left right : DerivedContentProof) : Bool :=
  exactEntriesMatch (sortedProofEntries array host left.attachments)
      (sortedProofEntries array host right.attachments) &&
    exactEntriesMatch (sortedProofEntries array host left.bodyObjects)
      (sortedProofEntries array host right.bodyObjects)

def canonicalDerivedContentProof (array : ArraySort) (host : HostRuntime)
    (proof : DerivedContentProof) : String :=
  stringify (proofJson (sortedProof array host proof))

/-- The proofs name the same objects. -/
structure DerivedContentProof.Rearranges (left right : DerivedContentProof) : Prop where
  attachments : left.attachments.Perm right.attachments
  bodyObjects : left.bodyObjects.Perm right.bodyObjects

/-- `localeCompare` tells different keys apart. -/
def KeysApart (host : HostRuntime) (entries : List DerivedObject) : Prop :=
  ∀ a ∈ entries, ∀ b ∈ entries, host.localeCompare a.r2Key b.r2Key = .eq → a.r2Key = b.r2Key

def DerivedContentProof.KeysApart (host : HostRuntime) (proof : DerivedContentProof) : Prop :=
  Derived.KeysApart host proof.attachments ∧ Derived.KeysApart host proof.bodyObjects

/-- The lengths are numbers of bytes. -/
def DerivedContentProof.Safe (proof : DerivedContentProof) : Prop :=
  ∀ object ∈ proof.objects, object.Safe

/-! ### Commands -/

/-- `StoredAttachment`, as far as the fingerprint lists it. -/
structure StoredAttachment where
  id : String
  email_id : String
  filename : String
  mimetype : String
  size : ℤ
  content_id : Option String
  disposition : Option String
  r2_key : Option String
deriving DecidableEq

inductive BodyContentType
  | html
  | plain
  deriving DecidableEq

def BodyContentType.text : BodyContentType → String
  | html => "text/html"
  | plain => "text/plain"

/-- `StoredEmailBodyObject` -/
structure StoredEmailBodyObject where
  id : String
  email_id : String
  part_index : ℤ
  content_type : BodyContentType
  charset : String
  r2_key : String
  byte_length : ℤ
deriving DecidableEq

/-- `InboundDerivedContentRepairCommand`, without its fingerprint. -/
structure RepairCommand where
  attemptId : String
  emailId : String
  expectedGeneration : ℤ
  markerId : String
  body : String
  attachments : List StoredAttachment
  bodyObjects : List StoredEmailBodyObject
deriving DecidableEq

/-- The comparator of the attachments of a command. -/
def attachmentOrder (host : HostRuntime) (left right : StoredAttachment) : Ordering :=
  if left.id = right.id then host.localeCompare (left.r2_key.getD "") (right.r2_key.getD "")
  else host.localeCompare left.id right.id

/-- The comparator of the body objects of a command. -/
def bodyObjectOrder (host : HostRuntime) (left right : StoredEmailBodyObject) : Ordering :=
  if left.part_index = right.part_index then host.localeCompare left.id right.id
  else compare left.part_index right.part_index

def storedAttachmentJson (attachment : StoredAttachment) : Json :=
  .obj [("id", .str attachment.id), ("email_id", .str attachment.email_id),
    ("filename", .str attachment.filename), ("mimetype", .str attachment.mimetype),
    ("size", ofInt attachment.size), ("content_id", ofNullable attachment.content_id),
    ("disposition", ofNullable attachment.disposition), ("r2_key", ofNullable attachment.r2_key)]

def storedBodyObjectJson (bodyObject : StoredEmailBodyObject) : Json :=
  .obj [("id", .str bodyObject.id), ("email_id", .str bodyObject.email_id),
    ("part_index", ofInt bodyObject.part_index),
    ("content_type", .str bodyObject.content_type.text), ("charset", .str bodyObject.charset),
    ("r2_key", .str bodyObject.r2_key), ("byte_length", ofInt bodyObject.byte_length)]

def repairCommandJson (array : ArraySort) (host : HostRuntime) (command : RepairCommand) : Json :=
  .obj [("attemptId", .str command.attemptId), ("emailId", .str command.emailId),
    ("expectedGeneration", ofInt command.expectedGeneration), ("markerId", .str command.markerId),
    ("body", .str command.body),
    ("attachments",
      .arr ((array.sort (attachmentOrder host) command.attachments).map storedAttachmentJson)),
    ("bodyObjects",
      .arr ((array.sort (bodyObjectOrder host) command.bodyObjects).map storedBodyObjectJson))]

def canonicalInboundDerivedContentRepairCommand (array : ArraySort) (host : HostRuntime)
    (command : RepairCommand) : String :=
  stringify (repairCommandJson array host command)

/-- The commands differ in the order of their attachments and body objects at most. -/
structure RepairCommand.Rearranges (left right : RepairCommand) : Prop where
  attemptId : left.attemptId = right.attemptId
  emailId : left.emailId = right.emailId
  expectedGeneration : left.expectedGeneration = right.expectedGeneration
  markerId : left.markerId = right.markerId
  body : left.body = right.body
  attachments : left.attachments.Perm right.attachments
  bodyObjects : left.bodyObjects.Perm right.bodyObjects

/-- The identifiers are distinct. -/
structure RepairCommand.Distinct (command : RepairCommand) : Prop where
  attachments : (command.attachments.map (·.id)).Nodup
  bodyObjects : (command.bodyObjects.map (·.id)).Nodup

/-- `localeCompare` tells different identifiers apart, where it decides. -/
structure RepairCommand.IdsApart (host : HostRuntime) (command : RepairCommand) : Prop where
  attachments : ∀ a ∈ command.attachments, ∀ b ∈ command.attachments,
    host.localeCompare a.id b.id = .eq → a.id = b.id
  bodyObjects : ∀ a ∈ command.bodyObjects, ∀ b ∈ command.bodyObjects,
    a.part_index = b.part_index → host.localeCompare a.id b.id = .eq → a.id = b.id

/-- The numbers are safe integers. -/
structure RepairCommand.Safe (command : RepairCommand) : Prop where
  generation : isSafe command.expectedGeneration = true
  sizes : ∀ a ∈ command.attachments, isSafe a.size = true
  parts : ∀ b ∈ command.bodyObjects, isSafe b.part_index = true ∧ isSafe b.byte_length = true

/-! ### The comparators -/

section Comparators

variable {host : HostRuntime} [Std.TransCmp host.localeCompare]

theorem localeCompare_self (x : String) : host.localeCompare x x = .eq :=
  Std.ReflCmp.compare_self

theorem localeCompare_swap (x y : String) :
    host.localeCompare y x = (host.localeCompare x y).swap := Std.OrientedCmp.eq_swap

theorem localeCompare_trans {x y z : String} (hxy : host.localeCompare x y ≠ .gt)
    (hyz : host.localeCompare y z ≠ .gt) : host.localeCompare x z ≠ .gt :=
  Ordering.isLE_iff_ne_gt.mp
    (Std.TransCmp.isLE_trans (Ordering.isLE_iff_ne_gt.mpr hxy) (Ordering.isLE_iff_ne_gt.mpr hyz))

/-- Texts that are not greater than each other are called equal. -/
theorem localeCompare_antisymm {x y : String} (hxy : host.localeCompare x y ≠ .gt)
    (hyx : host.localeCompare y x ≠ .gt) : host.localeCompare x y = .eq := by
  rw [localeCompare_swap x y] at hyx
  cases hcmp : host.localeCompare x y with
  | lt => rw [hcmp] at hyx; exact absurd rfl hyx
  | eq => rfl
  | gt => exact absurd hcmp hxy

/-- Without ties between different keys, the entries are in order. -/
theorem entryOrder_consistent (h : KeysApart host entries) :
    Consistent (entryOrder host) entries where
  refl a _ := by rw [entryOrder, if_pos rfl, compare_eq_iff_eq]
  swap a _ b _ := by
    unfold entryOrder
    by_cases hkey : a.r2Key = b.r2Key
    · rw [if_pos hkey, if_pos hkey.symm]
      exact Std.OrientedOrd.eq_swap
    · rw [if_neg hkey, if_neg (Ne.symm hkey)]
      exact localeCompare_swap _ _
  trans a ha b hb c _ hab hbc := by
    unfold entryOrder at hab hbc ⊢
    by_cases hkab : a.r2Key = b.r2Key
    · rw [if_pos hkab] at hab
      by_cases hkbc : b.r2Key = c.r2Key
      · rw [if_pos hkbc] at hbc
        rw [if_pos (hkab.trans hkbc), Int.compare_ne_gt]
        exact (Int.compare_ne_gt.mp hab).trans (Int.compare_ne_gt.mp hbc)
      · rw [if_neg hkbc] at hbc
        rw [hkab, if_neg hkbc]
        exact hbc
    · rw [if_neg hkab] at hab
      by_cases hkbc : b.r2Key = c.r2Key
      · rw [← hkbc, if_neg hkab]
        exact hab
      · rw [if_neg hkbc] at hbc
        by_cases hkac : a.r2Key = c.r2Key
        · -- The keys of `a` and `b` would be called equal.
          rw [← hkac] at hbc
          exact absurd (h a ha b hb (localeCompare_antisymm hab hbc)) hkab
        · rw [if_neg hkac]
          exact localeCompare_trans hab hbc

omit [Std.TransCmp host.localeCompare] in
theorem entryOrder_noTies (h : KeysApart host entries) : NoTies (entryOrder host) entries := by
  intro a ha b hb htie
  unfold entryOrder at htie
  by_cases hkey : a.r2Key = b.r2Key
  · rw [if_pos hkey, compare_eq_iff_eq] at htie
    cases a
    cases b
    exact congrArg₂ DerivedObject.mk hkey htie
  · rw [if_neg hkey] at htie
    exact absurd (h a ha b hb htie) hkey

theorem attachmentOrder_consistent {attachments : List StoredAttachment}
    (hids : (attachments.map (·.id)).Nodup) : Consistent (attachmentOrder host) attachments := by
  have heq : ∀ a ∈ attachments, ∀ b ∈ attachments,
      attachmentOrder host a b = host.localeCompare a.id b.id := by
    intro a ha b hb
    unfold attachmentOrder
    split
    · rename_i hid
      obtain rfl := List.inj_on_of_nodup_map hids ha hb hid
      rw [localeCompare_self, localeCompare_self]
    · rfl
  refine ⟨fun a ha => ?_, fun a ha b hb => ?_, fun a ha b hb c hc hab hbc => ?_⟩
  · rw [heq a ha a ha, localeCompare_self]
  · rw [heq a ha b hb, heq b hb a ha, localeCompare_swap]
  · rw [heq a ha b hb] at hab
    rw [heq b hb c hc] at hbc
    rw [heq a ha c hc]
    exact localeCompare_trans hab hbc

theorem bodyObjectOrder_consistent (bodyObjects : List StoredEmailBodyObject) :
    Consistent (bodyObjectOrder host) bodyObjects where
  refl a _ := by rw [bodyObjectOrder, if_pos rfl, localeCompare_self]
  swap a _ b _ := by
    unfold bodyObjectOrder
    by_cases hpart : a.part_index = b.part_index
    · rw [if_pos hpart, if_pos hpart.symm, localeCompare_swap]
    · rw [if_neg hpart, if_neg (Ne.symm hpart)]
      exact Std.OrientedOrd.eq_swap
  trans a _ b _ c _ hab hbc := by
    unfold bodyObjectOrder at hab hbc ⊢
    by_cases hpab : a.part_index = b.part_index
    · rw [if_pos hpab] at hab
      by_cases hpbc : b.part_index = c.part_index
      · rw [if_pos hpbc] at hbc
        rw [if_pos (hpab.trans hpbc)]
        exact localeCompare_trans hab hbc
      · rw [if_neg hpbc] at hbc
        rw [hpab, if_neg hpbc]
        exact hbc
    · rw [if_neg hpab, Int.compare_ne_gt] at hab
      by_cases hpbc : b.part_index = c.part_index
      · rw [← hpbc, if_neg hpab, Int.compare_ne_gt]
        exact hab
      · rw [if_neg hpbc, Int.compare_ne_gt] at hbc
        have hlt : a.part_index < c.part_index :=
          lt_of_lt_of_le (lt_of_le_of_ne hab hpab) hbc
        rw [if_neg hlt.ne, Int.compare_ne_gt]
        exact hlt.le

end Comparators

/-! ### What is compared -/

/-- Entries match just if they are the same, one by one. -/
theorem exactEntriesMatch_iff {left right : List DerivedObject} :
    exactEntriesMatch left right = true ↔ left = right := by
  unfold exactEntriesMatch
  simp only [Bool.and_eq_true, decide_eq_true_eq, List.all_eq_true, Prod.forall]
  constructor
  · rintro ⟨hlength, hall⟩
    refine List.ext_getElem hlength fun i hi hi' => ?_
    have hentry := hall left[i] i (List.mem_zipIdx_iff_getElem?.mpr (List.getElem?_eq_getElem hi))
    rw [List.getElem?_eq_getElem hi', Option.map_some, Option.map_some] at hentry
    cases hleft : left[i]
    cases hright : right[i]
    rw [hleft, hright] at hentry
    exact congrArg₂ DerivedObject.mk (Option.some.inj hentry.1) (Option.some.inj hentry.2)
  · rintro rfl
    refine ⟨rfl, fun entry i hentry => ?_⟩
    rw [List.mem_zipIdx_iff_getElem?.mp hentry]
    exact ⟨rfl, rfl⟩

variable {array : ArraySort} {host : HostRuntime} {l r : DerivedContentProof}

theorem matches_iff_sorted : exactDerivedContentProofMatches array host l r = true ↔
    sortedProof array host l = sortedProof array host r := by
  rw [exactDerivedContentProofMatches, Bool.and_eq_true, exactEntriesMatch_iff,
    exactEntriesMatch_iff, sortedProof, sortedProof, DerivedContentProof.mk.injEq]

theorem safe_sortedProof (h : l.Safe) : (sortedProof array host l).Safe := by
  intro object hobject
  refine h object ?_
  rcases List.mem_append.mp hobject with hmem | hmem
  · exact List.mem_append_left _ ((array.perm _ _).mem_iff.mp hmem)
  · exact List.mem_append_right _ ((array.perm _ _).mem_iff.mp hmem)

theorem canonicalProof_eq_iff_sorted (hl : l.Safe) (hr : r.Safe) :
    canonicalDerivedContentProof array host l = canonicalDerivedContentProof array host r ↔
      sortedProof array host l = sortedProof array host r := by
  have hlSafe : (sortedProof array host l).Safe := safe_sortedProof hl
  have hrSafe : (sortedProof array host r).Safe := safe_sortedProof hr
  refine ⟨fun h => ?_, fun h => congrArg (fun proof => stringify (proofJson proof)) h⟩
  have hjson := stringify_inj (plain_proofJson hlSafe) (plain_proofJson hrSafe) h
  have hread := congrArg proofOf hjson
  rw [proofOf_proofJson hlSafe, proofOf_proofJson hrSafe] at hread
  exact Option.some.inj hread

/-- Proofs that are sorted alike name the same objects. -/
theorem rearranges_of_sorted (h : sortedProof array host l = sortedProof array host r) :
    l.Rearranges r := by
  obtain ⟨hattachments, hbodies⟩ := DerivedContentProof.mk.inj h
  exact ⟨ArraySort.perm_of_sort_eq hattachments, ArraySort.perm_of_sort_eq hbodies⟩

theorem sorted_iff_rearranges [Std.TransCmp host.localeCompare] (h : l.KeysApart host) :
    sortedProof array host l = sortedProof array host r ↔ l.Rearranges r := by
  refine ⟨rearranges_of_sorted, fun hsame => ?_⟩
  have hsorted : ∀ {entries entries' : List DerivedObject}, KeysApart host entries →
      entries.Perm entries' →
        sortedProofEntries array host entries = sortedProofEntries array host entries' :=
    fun hapart hperm => ArraySort.sort_eq_of_perm (entryOrder_consistent hapart)
      (entryOrder_noTies hapart) hperm
  exact DerivedContentProof.mk.injEq .. ▸
    ⟨hsorted h.1 hsame.attachments, hsorted h.2 hsame.bodyObjects⟩

/-- Keys that are called equal let some sort tell rearrangements apart. -/
theorem exists_rearranged [Std.TransCmp host.localeCompare] (h : ¬l.KeysApart host) :
    ∃ (array : ArraySort) (r : DerivedContentProof), l.Rearranges r ∧
      sortedProof array host l ≠ sortedProof array host r := by
  have hties : ∀ entries : List DerivedObject, ¬KeysApart host entries →
      ∃ (array : ArraySort) (entries' : List DerivedObject), entries.Perm entries' ∧
        sortedProofEntries array host entries ≠ sortedProofEntries array host entries' := by
    intro entries hnot
    unfold KeysApart at hnot
    push Not at hnot
    obtain ⟨a, ha, b, hb, htie, hne⟩ := hnot
    refine exists_sort_ne ha hb (fun hab => hne (congrArg DerivedObject.r2Key hab)) ?_
    rw [entryOrder, if_neg hne, htie]
  by_cases hattachments : KeysApart host l.attachments
  · obtain ⟨array, entries, hperm, hne⟩ := hties _ fun hbodies => h ⟨hattachments, hbodies⟩
    exact ⟨array, ⟨l.attachments, entries⟩, ⟨.refl _, hperm⟩,
      fun hsorted => hne (DerivedContentProof.mk.inj hsorted).2⟩
  · obtain ⟨array, entries, hperm, hne⟩ := hties _ hattachments
    exact ⟨array, ⟨entries, l.bodyObjects⟩, ⟨hperm, .refl _⟩,
      fun hsorted => hne (DerivedContentProof.mk.inj hsorted).1⟩

theorem DerivedContentProof.Rearranges.safe (h : l.Rearranges r) (hl : l.Safe) : r.Safe := by
  intro object hobject
  rcases List.mem_append.mp hobject with hmem | hmem
  · exact hl object (List.mem_append_left _ (h.attachments.mem_iff.mpr hmem))
  · exact hl object (List.mem_append_right _ (h.bodyObjects.mem_iff.mpr hmem))

/-! ### The texts of commands -/

section Commands

variable {c c' : RepairCommand}

theorem ofNullable_injective : Function.Injective ofNullable := by
  intro x y h
  cases x <;> cases y <;> simp_all [ofNullable]

theorem ofInt_injective : Function.Injective ofInt := by
  intro m n h
  simpa [ofInt] using h

theorem BodyContentType.text_injective : Function.Injective BodyContentType.text := by
  intro x y h
  cases x <;> cases y <;> first | rfl | exact absurd h (by decide)

theorem storedAttachmentJson_injective : Function.Injective storedAttachmentJson := by
  intro a b h
  simp only [storedAttachmentJson, Json.obj.injEq, List.cons.injEq, Prod.mk.injEq, true_and,
    Json.str.injEq, ofInt_injective.eq_iff, ofNullable_injective.eq_iff, and_true] at h
  obtain ⟨hid, hemail, hfilename, hmimetype, hsize, hcontent, hdisposition, hkey⟩ := h
  cases a
  cases b
  simp only [StoredAttachment.mk.injEq]
  exact ⟨hid, hemail, hfilename, hmimetype, hsize, hcontent, hdisposition, hkey⟩

theorem storedBodyObjectJson_injective : Function.Injective storedBodyObjectJson := by
  intro a b h
  simp only [storedBodyObjectJson, Json.obj.injEq, List.cons.injEq, Prod.mk.injEq, true_and,
    Json.str.injEq, ofInt_injective.eq_iff, BodyContentType.text_injective.eq_iff, and_true] at h
  obtain ⟨hid, hemail, hpart, htype, hcharset, hkey, hlength⟩ := h
  cases a
  cases b
  simp only [StoredEmailBodyObject.mk.injEq]
  exact ⟨hid, hemail, hpart, htype, hcharset, hkey, hlength⟩

theorem plain_storedAttachmentJson {a : StoredAttachment} (h : isSafe a.size = true) :
    (storedAttachmentJson a).Plain := by
  refine plain_obj (by simp) fun m hm => ?_
  simp only [List.mem_cons, List.not_mem_nil, or_false] at hm
  rcases hm with rfl | rfl | rfl | rfl | rfl | rfl | rfl | rfl
  · exact plain_str _
  · exact plain_str _
  · exact plain_str _
  · exact plain_str _
  · exact plain_ofInt h
  · exact plain_ofNullable _
  · exact plain_ofNullable _
  · exact plain_ofNullable _

theorem plain_storedBodyObjectJson {b : StoredEmailBodyObject} (hpart : isSafe b.part_index = true)
    (hlength : isSafe b.byte_length = true) : (storedBodyObjectJson b).Plain := by
  refine plain_obj (by simp) fun m hm => ?_
  simp only [List.mem_cons, List.not_mem_nil, or_false] at hm
  rcases hm with rfl | rfl | rfl | rfl | rfl | rfl | rfl
  · exact plain_str _
  · exact plain_str _
  · exact plain_ofInt hpart
  · exact plain_str _
  · exact plain_str _
  · exact plain_str _
  · exact plain_ofInt hlength

theorem plain_repairCommandJson (h : c.Safe) : (repairCommandJson array host c).Plain := by
  refine plain_obj (by simp) fun m hm => ?_
  simp only [List.mem_cons, List.not_mem_nil, or_false] at hm
  rcases hm with rfl | rfl | rfl | rfl | rfl | rfl | rfl
  · exact plain_str _
  · exact plain_str _
  · exact plain_ofInt h.generation
  · exact plain_str _
  · exact plain_str _
  · refine plain_arr fun v hv => ?_
    obtain ⟨a, ha, rfl⟩ := List.mem_map.mp hv
    exact plain_storedAttachmentJson (h.sizes a ((array.perm _ _).mem_iff.mp ha))
  · refine plain_arr fun v hv => ?_
    obtain ⟨b, hb, rfl⟩ := List.mem_map.mp hv
    obtain ⟨hpart, hlength⟩ := h.parts b ((array.perm _ _).mem_iff.mp hb)
    exact plain_storedBodyObjectJson hpart hlength

section

variable (hc : c.Safe) (hc' : c'.Safe)
  (h : canonicalInboundDerivedContentRepairCommand array host c =
    canonicalInboundDerivedContentRepairCommand array host c')
include hc hc' h

/-- What the text of a command tells. -/
theorem sorted_of_canonical_eq :
    (c.attemptId = c'.attemptId ∧ c.emailId = c'.emailId ∧
      c.expectedGeneration = c'.expectedGeneration ∧ c.markerId = c'.markerId ∧ c.body = c'.body) ∧
    array.sort (attachmentOrder host) c.attachments =
      array.sort (attachmentOrder host) c'.attachments ∧
    array.sort (bodyObjectOrder host) c.bodyObjects =
      array.sort (bodyObjectOrder host) c'.bodyObjects := by
  have hjson := stringify_inj (plain_repairCommandJson hc) (plain_repairCommandJson hc') h
  simp only [repairCommandJson, Json.obj.injEq, List.cons.injEq, Prod.mk.injEq, true_and,
    Json.str.injEq, Json.arr.injEq, ofInt_injective.eq_iff, and_true,
    (List.map_injective_iff.mpr storedAttachmentJson_injective).eq_iff,
    (List.map_injective_iff.mpr storedBodyObjectJson_injective).eq_iff] at hjson
  obtain ⟨hattempt, hemail, hgeneration, hmarker, hbody, hattachments, hbodies⟩ := hjson
  exact ⟨⟨hattempt, hemail, hgeneration, hmarker, hbody⟩, hattachments, hbodies⟩

/-- Commands with one text differ in the order of their parts at most. -/
theorem rearranges_of_canonical_eq : c.Rearranges c' := by
  obtain ⟨⟨hattempt, hemail, hgeneration, hmarker, hbody⟩, hattachments, hbodies⟩ :=
    sorted_of_canonical_eq hc hc' h
  exact ⟨hattempt, hemail, hgeneration, hmarker, hbody, ArraySort.perm_of_sort_eq hattachments,
    ArraySort.perm_of_sort_eq hbodies⟩

end

theorem RepairCommand.Rearranges.safe (h : c.Rearranges c') (hc : c.Safe) : c'.Safe where
  generation := h.expectedGeneration ▸ hc.generation
  sizes a ha := hc.sizes a (h.attachments.mem_iff.mpr ha)
  parts b hb := hc.parts b (h.bodyObjects.mem_iff.mpr hb)

variable [Std.TransCmp host.localeCompare]

/-- Commands that differ in the order of their parts have one text. -/
theorem canonical_eq_of_rearranges (hdistinct : c.Distinct) (hapart : c.IdsApart host)
    (h : c.Rearranges c') : canonicalInboundDerivedContentRepairCommand array host c =
      canonicalInboundDerivedContentRepairCommand array host c' := by
  have hattachments : NoTies (attachmentOrder host) c.attachments := by
    intro a ha b hb htie
    refine List.inj_on_of_nodup_map hdistinct.attachments ha hb ?_
    by_contra hne
    rw [attachmentOrder, if_neg hne] at htie
    exact hne (hapart.attachments a ha b hb htie)
  have hbodies : NoTies (bodyObjectOrder host) c.bodyObjects := by
    intro a ha b hb htie
    refine List.inj_on_of_nodup_map hdistinct.bodyObjects ha hb ?_
    unfold bodyObjectOrder at htie
    by_cases hpart : a.part_index = b.part_index
    · rw [if_pos hpart] at htie
      exact hapart.bodyObjects a ha b hb hpart htie
    · rw [if_neg hpart, compare_eq_iff_eq] at htie
      exact absurd htie hpart
  have hsortAttachments := array.sort_eq_of_perm
    (attachmentOrder_consistent hdistinct.attachments) hattachments h.attachments
  have hsortBodies := array.sort_eq_of_perm (bodyObjectOrder_consistent c.bodyObjects) hbodies
    h.bodyObjects
  unfold canonicalInboundDerivedContentRepairCommand repairCommandJson
  rw [hsortAttachments, hsortBodies, h.attemptId, h.emailId, h.expectedGeneration, h.markerId,
    h.body]

/-- Identifiers that are called equal give a rearranged command another text. -/
theorem exists_rearranged_command (array : ArraySort) (hc : c.Safe) (hdistinct : c.Distinct)
    (h : ¬c.IdsApart host) : ∃ c' : RepairCommand, c.Rearranges c' ∧
      canonicalInboundDerivedContentRepairCommand array host c ≠
        canonicalInboundDerivedContentRepairCommand array host c' := by
  by_cases hattachments : ∀ a ∈ c.attachments, ∀ b ∈ c.attachments,
      host.localeCompare a.id b.id = .eq → a.id = b.id
  · have hbodies : ¬∀ a ∈ c.bodyObjects, ∀ b ∈ c.bodyObjects, a.part_index = b.part_index →
        host.localeCompare a.id b.id = .eq → a.id = b.id := fun hbodies => h ⟨hattachments, hbodies⟩
    push Not at hbodies
    obtain ⟨a, ha, b, hb, hpart, htie, hne⟩ := hbodies
    have hconsistent : Consistent (bodyObjectOrder host) c.bodyObjects :=
      bodyObjectOrder_consistent c.bodyObjects
    obtain ⟨bodies, hperm, hsort⟩ := ArraySort.exists_perm_sort_ne (s := array) hconsistent ha hb
      (fun hab => hne (congrArg StoredEmailBodyObject.id hab))
      (by rw [bodyObjectOrder, if_pos hpart, htie])
    have hsame : c.Rearranges { c with bodyObjects := bodies } :=
      ⟨rfl, rfl, rfl, rfl, rfl, .refl _, hperm⟩
    exact ⟨_, hsame, fun heq => hsort (sorted_of_canonical_eq hc (hsame.safe hc) heq).2.2⟩
  · push Not at hattachments
    obtain ⟨a, ha, b, hb, htie, hne⟩ := hattachments
    have hconsistent : Consistent (attachmentOrder host) c.attachments :=
      attachmentOrder_consistent hdistinct.attachments
    obtain ⟨attachments, hperm, hsort⟩ := ArraySort.exists_perm_sort_ne (s := array) hconsistent
      ha hb
      (fun hab => hne (congrArg StoredAttachment.id hab))
      (by rw [attachmentOrder, if_neg hne, htie])
    have hsame : c.Rearranges { c with attachments := attachments } :=
      ⟨rfl, rfl, rfl, rfl, rfl, hperm, .refl _⟩
    exact ⟨_, hsame, fun heq => hsort (sorted_of_canonical_eq hc (hsame.safe hc) heq).2.1⟩

end Commands

/-! ### The results -/

/-- **Proofs and commands are compared as multisets** just if `localeCompare` tells their keys and
identifiers apart: whatever the sort does, and however the other side is arranged,

* two proofs match just if they name the same objects;
* their canonical texts are the same just if they name the same objects;
* a rearrangement of a command with distinct identifiers has the same text;

and commands with one text differ in nothing but the order of their parts. -/
theorem derived_content_canonical (host : HostRuntime) [Std.TransCmp host.localeCompare] :
    (∀ l : DerivedContentProof, (∀ (array : ArraySort) (r : DerivedContentProof),
      exactDerivedContentProofMatches array host l r = true ↔ l.Rearranges r) ↔
        l.KeysApart host) ∧
    (∀ l : DerivedContentProof, l.Safe → ((∀ (array : ArraySort) (r : DerivedContentProof), r.Safe →
      (canonicalDerivedContentProof array host l = canonicalDerivedContentProof array host r ↔
        l.Rearranges r)) ↔ l.KeysApart host)) ∧
    (∀ c : RepairCommand, c.Safe → c.Distinct →
      ((∀ (array : ArraySort) (c' : RepairCommand), c.Rearranges c' →
        canonicalInboundDerivedContentRepairCommand array host c =
          canonicalInboundDerivedContentRepairCommand array host c') ↔ c.IdsApart host)) ∧
    ∀ (array : ArraySort) (c c' : RepairCommand), c.Safe → c'.Safe →
      canonicalInboundDerivedContentRepairCommand array host c =
        canonicalInboundDerivedContentRepairCommand array host c' → c.Rearranges c' := by
  refine ⟨fun l => ⟨fun h => ?_, fun h array r => ?_⟩, fun l hl =>
    ⟨fun h => ?_, fun h array r hr => ?_⟩,
    fun c hc hdistinct => ⟨fun h => ?_, fun h array c' => canonical_eq_of_rearranges hdistinct h⟩,
    fun array c c' hc hc' => rearranges_of_canonical_eq hc hc'⟩
  · by_contra hnot
    obtain ⟨array, r, hsame, hne⟩ := exists_rearranged hnot
    exact hne (matches_iff_sorted.mp ((h array r).mpr hsame))
  · exact matches_iff_sorted.trans (sorted_iff_rearranges h)
  · by_contra hnot
    obtain ⟨array, r, hsame, hne⟩ := exists_rearranged hnot
    have hr := hsame.safe hl
    exact hne ((canonicalProof_eq_iff_sorted hl hr).mp ((h array r hr).mpr hsame))
  · exact (canonicalProof_eq_iff_sorted hl hr).trans (sorted_iff_rearranges h)
  · by_contra hnot
    obtain ⟨c', hsame, hne⟩ := exists_rearranged_command orderlySort hc hdistinct hnot
    exact hne (h orderlySort c' hsame)

/-! ### Keys that are canonically equivalent -/

/-- The character, with its accent apart. -/
def decomposed (c : Char) : List ℕ := if c = '\u00e9' then [0x65, 0x301] else [c.toNat]

/-- A host that compares letters and accents. -/
def sampleLocale : HostRuntime where
  dateParse _ := none
  localeCompare x y := compare (x.toList.flatMap decomposed) (y.toList.flatMap decomposed)

instance : Std.TransCmp sampleLocale.localeCompare where
  eq_swap := Std.OrientedOrd.eq_swap
  isLE_trans := Std.TransOrd.isLE_trans

/-- Two keys are told apart, and the proof matches its rearrangement. -/
theorem derived_content_canonical_sample :
    exactDerivedContentProofMatches orderlySort sampleLocale ⟨[⟨"a", 1⟩, ⟨"b", 2⟩], []⟩
      ⟨[⟨"b", 2⟩, ⟨"a", 1⟩], []⟩ = true := by
  have hapart : (⟨[⟨"a", 1⟩, ⟨"b", 2⟩], []⟩ : DerivedContentProof).KeysApart sampleLocale :=
    ⟨by simp only [KeysApart]; decide, by simp [KeysApart]⟩
  exact (((derived_content_canonical sampleLocale).1 _).mpr hapart orderlySort _).mpr
    ⟨List.Perm.swap _ _ _, .refl _⟩

/-- Two names of one file, as one text and as another. -/
def equivalentEntries : List DerivedObject := [⟨"caf\u00e9", 1⟩, ⟨"cafe\u0301", 2⟩]

/-- The entries in either arrangement are all called equal, and so stay as they are. -/
theorem sorted_equivalent {entry : DerivedObject} (hperm : entries.Perm equivalentEntries)
    (hentry : entry ∈ entries) : sortedProofEntries orderlySort sampleLocale entries = entries := by
  have htied : ∀ a ∈ entries, ∀ b ∈ entries, entryOrder sampleLocale a b = .eq := by
    intro a ha b hb
    have hall : ∀ a ∈ equivalentEntries, ∀ b ∈ equivalentEntries,
        entryOrder sampleLocale a b = .eq := by decide
    exact hall a (hperm.mem_iff.mp ha) b (hperm.mem_iff.mp hb)
  have hconsistent : Consistent (entryOrder sampleLocale) entries := by
    refine ⟨fun a ha => htied a ha a ha, fun a ha b hb => ?_, fun a ha b _ c hc _ _ => ?_⟩
    · rw [htied a ha b hb, htied b hb a ha, Ordering.swap_eq]
    · rw [htied a ha c hc]
      exact Ordering.noConfusion
  exact ArraySort.sort_of_tied hconsistent hentry (htied entry hentry)

/-- **Keys that are canonically equivalent** make a proof differ from its rearrangement. -/
theorem equivalent_keys_differ :
    ¬∀ (array : ArraySort) (l r : DerivedContentProof),
      exactDerivedContentProofMatches array sampleLocale l r = true ↔ l.Rearranges r := by
  intro hall
  have hmatch := (hall orderlySort ⟨equivalentEntries, []⟩ ⟨equivalentEntries.reverse, []⟩).mpr
    ⟨(List.reverse_perm equivalentEntries).symm, .refl []⟩
  have hsorted := (DerivedContentProof.mk.inj (matches_iff_sorted.mp hmatch)).1
  rw [sorted_equivalent (.refl _) List.mem_cons_self,
    sorted_equivalent (List.reverse_perm _) List.mem_cons_self] at hsorted
  exact absurd hsorted (by decide)

end MailPortal.Derived
