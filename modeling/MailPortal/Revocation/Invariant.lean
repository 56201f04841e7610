import MailPortal.Revocation.Outbox

/-!
# What Holds of the Outbox

A row carries the token of the last worker that claimed it. A row that is gone was deleted by a
worker whose call to reconcile began after the row was inserted and was claimed, and returned. The
order of what happened is a sublist of the history.

Main results:

* `OutboxInv` : what always holds.
* `OutboxInv.claimBatch`, `OutboxInv.insert` : it is kept when rows are claimed and inserted.
* `OutboxInv.complete` : it is kept when a row is deleted by who has reconciled it.
* `no_later_claim` : a row is not claimed by two workers in turn.
-/

namespace MailPortal.Revocation

open Concurrent Table
open scoped List

variable {toLowerCase : String → String}
variable {token id : String} {subject : Subject} {history history' events : List Event}
  {outbox : Outbox}

/-! ### Histories -/

/-- The tokens of all batches. -/
def tokens (history : List Event) : List String :=
  history.filterMap fun event =>
    match event with
    | .claimed token _ => some token
    | _ => none

/-- The tokens of the batches that claimed a row. -/
def tokensOf (id : String) (history : List Event) : List String :=
  history.filterMap fun event =>
    match event with
    | .claimed token ids => if id ∈ ids then some token else none
    | _ => none

/-- The worker reconciled what the row is about: it claimed the row after it was inserted, then
its call to reconcile began, and then it returned. -/
def Reconciled (token id : String) (subject : Subject) (history : List Event) : Prop :=
  ∃ ids, id ∈ ids ∧ [.inserted id subject, .claimed token ids, .began token subject,
    .returned token subject] <+ history

/-- The worker claimed the row after it was inserted. -/
def Claimed (token id : String) (subject : Subject) (history : List Event) : Prop :=
  ∃ ids, id ∈ ids ∧ [.inserted id subject, .claimed token ids] <+ history

def Began (token id : String) (subject : Subject) (history : List Event) : Prop :=
  ∃ ids, id ∈ ids ∧ [.inserted id subject, .claimed token ids, .began token subject] <+ history

theorem Claimed.mono (h : Claimed token id subject history) (hlater : history <+: history') :
    Claimed token id subject history' := by
  obtain ⟨ids, hid, hsub⟩ := h
  exact ⟨ids, hid, hsub.trans hlater.sublist⟩

theorem Began.mono (h : Began token id subject history) (hlater : history <+: history') :
    Began token id subject history' := by
  obtain ⟨ids, hid, hsub⟩ := h
  exact ⟨ids, hid, hsub.trans hlater.sublist⟩

theorem Reconciled.mono (h : Reconciled token id subject history) (hlater : history <+: history') :
    Reconciled token id subject history' := by
  obtain ⟨ids, hid, hsub⟩ := h
  exact ⟨ids, hid, hsub.trans hlater.sublist⟩

theorem Claimed.began (h : Claimed token id subject history) :
    Began token id subject (history ++ [.began token subject]) := by
  obtain ⟨ids, hid, hsub⟩ := h
  exact ⟨ids, hid, hsub.append (List.Sublist.refl [Event.began token subject])⟩

theorem Began.returned (h : Began token id subject history) :
    Reconciled token id subject (history ++ [.returned token subject]) := by
  obtain ⟨ids, hid, hsub⟩ := h
  exact ⟨ids, hid, hsub.append (List.Sublist.refl [Event.returned token subject])⟩

theorem heldBy_iff {row : OutboxRow} : row.heldBy id token = true ↔
    row.id = id ∧ ∃ lease, row.lease = some lease ∧ lease.token = token := by
  simp [OutboxRow.heldBy, Option.any_eq_true]

theorem tokensOf_append (id : String) (history history' : List Event) :
    tokensOf id (history ++ history') = tokensOf id history ++ tokensOf id history' :=
  List.filterMap_append

theorem insertedIds_append (history history' : List Event) :
    insertedIds (history ++ history') = insertedIds history ++ insertedIds history' :=
  List.filterMap_append

theorem mem_insertedIds : id ∈ insertedIds history ↔ ∃ subject, .inserted id subject ∈ history := by
  rw [insertedIds, List.mem_filterMap]
  constructor
  · rintro ⟨event, hevent, heq⟩
    cases event with
    | inserted id' subject =>
        cases heq
        exact ⟨subject, hevent⟩
    | claimed | began | returned | deleted | read => cases heq
  · rintro ⟨subject, hmem⟩
    exact ⟨_, hmem, rfl⟩

theorem insertedIds_eq_nil (h : ∀ id subject, Event.inserted id subject ∉ events) :
    insertedIds events = [] := by
  refine List.eq_nil_iff_forall_not_mem.mpr fun id hid => ?_
  obtain ⟨subject, hmem⟩ := mem_insertedIds.mp hid
  exact h id subject hmem

theorem tokensOf_eq_nil (h : ∀ token ids, Event.claimed token ids ∉ events) :
    tokensOf id events = [] := by
  refine List.filterMap_eq_nil_iff.mpr fun event hevent => ?_
  cases event with
  | claimed token ids => exact absurd hevent (h token ids)
  | inserted | began | returned | deleted | read => rfl

/-- An id is inserted once, and so for one subject. -/
theorem inserted_unique (hnodup : (insertedIds history).Nodup) {subject' : Subject}
    (h : .inserted id subject ∈ history) (h' : .inserted id subject' ∈ history) :
    subject = subject' := by
  induction history with
  | nil => cases h
  | cons event history ih =>
      have hfresh : ∀ subject₀, event = .inserted id subject₀ →
          ∀ subject₁, .inserted id subject₁ ∉ history := by
        rintro subject₀ rfl subject₁ hmem
        exact (List.nodup_cons.mp hnodup).1 (mem_insertedIds.mpr ⟨subject₁, hmem⟩)
      rcases List.mem_cons.mp h with heq | hmem
      · rcases List.mem_cons.mp h' with heq' | hmem'
        · rw [← heq] at heq'
          exact (Event.inserted.inj heq').2.symm
        · exact absurd hmem' (hfresh subject heq.symm subject')
      · rcases List.mem_cons.mp h' with heq' | hmem'
        · exact absurd hmem (hfresh subject' heq'.symm subject)
        · refine ih ?_ hmem hmem'
          exact hnodup.sublist ((List.sublist_cons_self event history).filterMap _)

/-- Batches with tokens of their own claim a row with tokens of their own. -/
theorem tokensOf_sublist (id : String) (history : List Event) :
    tokensOf id history <+ tokens history := by
  induction history with
  | nil => exact List.Sublist.refl []
  | cons event history ih =>
      cases event with
      | claimed token ids =>
          by_cases hid : id ∈ ids
          · simpa [tokensOf, tokens, hid] using ih
          · simpa [tokensOf, tokens, hid] using ih.cons token
      | inserted | began | returned | deleted | read => exact ih

/-- The last worker that claimed the row has this token: when tokens are drawn once, nobody claimed
the row after that worker. -/
theorem no_later_claim (hnodup : (tokens history).Nodup)
    (hlast : (tokensOf id history).getLast? = some token) {ids ids' : List String} {token' : String}
    (hid : id ∈ ids) (hid' : id ∈ ids') :
    ¬ [.claimed token ids, .claimed token' ids'] <+ history := by
  intro hsub
  have hclaims : [token, token'] <+ tokensOf id history := by
    simpa [tokensOf, hid, hid'] using hsub.filterMap fun event =>
      match event with
      | .claimed token ids => if id ∈ ids then some token else none
      | _ => none
  have hdistinct := hnodup.sublist (tokensOf_sublist id history)
  obtain ⟨before, hbefore⟩ := List.getLast?_eq_some_iff.mp hlast
  rw [hbefore] at hclaims hdistinct
  have hmem : token ∈ before := by
    rcases List.sublist_append_iff.mp hclaims with ⟨l₁, l₂, hl, hl₁, hl₂⟩
    cases l₁ with
    | nil =>
        rw [List.nil_append] at hl
        have hlen := hl₂.length_le
        rw [← hl] at hlen
        simp at hlen
    | cons first l₁ =>
        rw [List.cons_append] at hl
        rw [(List.cons.inj hl).1]
        exact hl₁.subset List.mem_cons_self
  exact List.disjoint_of_nodup_append hdistinct hmem (List.mem_singleton_self token)

/-! ### The invariant -/

/-- Every deletion of the history was earned. -/
def DeletionsEarned (history : List Event) : Prop :=
  ∀ before after token id subject, history = before ++ .deleted token id subject :: after →
    Reconciled token id subject before ∧ (tokensOf id before).getLast? = some token

/-- **What always holds of the outbox.** -/
structure OutboxInv (outbox : Outbox) : Prop where
  keys : (outbox.rows.map OutboxRow.id).Nodup
  fresh : (insertedIds outbox.history).Nodup
  inserted : ∀ row ∈ outbox.rows, .inserted row.id row.subject ∈ outbox.history
  leased : ∀ row ∈ outbox.rows, ∀ lease, row.lease = some lease →
    (tokensOf row.id outbox.history).getLast? = some lease.token
  kept : ∀ id subject, .inserted id subject ∈ outbox.history →
    id ∈ outbox.rows.map OutboxRow.id ∨ ∃ token, .deleted token id subject ∈ outbox.history
  earned : DeletionsEarned outbox.history

/-- A turn adds to the history. -/
def OutboxStep (outbox outbox' : Outbox) : Prop := outbox.history <+: outbox'.history

theorem outboxStep_refl (outbox : Outbox) : OutboxStep outbox outbox := List.prefix_refl _

theorem outboxInv_empty : OutboxInv emptyOutbox where
  keys := List.nodup_nil
  fresh := List.nodup_nil
  inserted := nofun
  leased := nofun
  kept := nofun
  earned before after token id subject heq := by
    cases before <;> cases heq

/-- An event that deletes nothing earns nothing. -/
theorem DeletionsEarned.append (h : DeletionsEarned history)
    (hevents : ∀ before after token id subject,
      events = before ++ .deleted token id subject :: after →
        Reconciled token id subject (history ++ before) ∧
          (tokensOf id (history ++ before)).getLast? = some token) :
    DeletionsEarned (history ++ events) := by
  intro before after token id subject heq
  rcases List.append_eq_append_iff.mp heq with ⟨middle, hbefore, hevent⟩ | ⟨middle, hhist, hevent⟩
  · rw [hbefore]
    exact hevents middle after token id subject hevent
  · cases middle with
    | nil =>
        rw [List.append_nil] at hhist
        have hhead := hevents [] after token id subject (by simpa using hevent.symm)
        rw [List.append_nil, hhist] at hhead
        exact hhead
    | cons event middle =>
        cases hevent
        exact h before middle token id subject hhist

theorem DeletionsEarned.append_of_none (h : DeletionsEarned history)
    (hevents : ∀ token id subject, .deleted token id subject ∉ events) :
    DeletionsEarned (history ++ events) := by
  refine h.append fun before after token id subject heq => ?_
  exact absurd (heq ▸ List.mem_append_right _ List.mem_cons_self) (hevents token id subject)

/-! ### Statements -/

/-- Rows are updated, and nothing else happens: the rows keep their ids and what they are about,
and get no lease but that of the last worker. -/
theorem OutboxInv.updateWhere (h : OutboxInv outbox) {p : OutboxRow → Bool}
    {f : OutboxRow → OutboxRow} (hid : ∀ row, (f row).id = row.id)
    (hsubject : ∀ row, (f row).subject = row.subject)
    (hlease : ∀ row lease, p row = true → (f row).lease = some lease →
      ∃ old, row.lease = some old ∧ old.token = lease.token) :
    OutboxInv { outbox with rows := updateWhere p f outbox.rows } where
  keys := by
    rw [map_key_updateWhere hid]
    exact h.keys
  fresh := h.fresh
  inserted row hrow := by
    rcases mem_updateWhere.mp hrow with ⟨old, hold, -, rfl⟩ | ⟨hold, -⟩
    · rw [hid, hsubject]
      exact h.inserted old hold
    · exact h.inserted row hold
  leased row hrow lease hleased := by
    rcases mem_updateWhere.mp hrow with ⟨old, hold, hp, rfl⟩ | ⟨hold, -⟩
    · obtain ⟨lease', hlease', htoken⟩ := hlease old lease hp hleased
      rw [hid, ← htoken]
      exact h.leased old hold lease' hlease'
    · exact h.leased row hold lease hleased
  kept id subject hmem := by
    rw [map_key_updateWhere hid]
    exact h.kept id subject hmem
  earned := h.earned

/-- An event that inserts, claims and deletes nothing. -/
theorem OutboxInv.log (h : OutboxInv outbox) {event : Event}
    (hinserted : ∀ id subject, event ≠ .inserted id subject)
    (hclaimed : ∀ token ids, event ≠ .claimed token ids)
    (hdeleted : ∀ token id subject, event ≠ .deleted token id subject) :
    OutboxInv (outbox.log event) := by
  have hids : insertedIds (outbox.history ++ [event]) = insertedIds outbox.history := by
    rw [insertedIds_append]
    cases event with
    | inserted id subject => exact absurd rfl (hinserted id subject)
    | claimed | began | returned | deleted | read => exact List.append_nil _
  have htokens : ∀ id, tokensOf id (outbox.history ++ [event]) = tokensOf id outbox.history := by
    intro id
    rw [tokensOf_append]
    cases event with
    | claimed token ids => exact absurd rfl (hclaimed token ids)
    | inserted | began | returned | deleted | read => exact List.append_nil _
  have hold : ∀ {id subject}, .inserted id subject ∈ outbox.history ++ [event] →
      .inserted id subject ∈ outbox.history := by
    intro id subject hmem
    rcases List.mem_append.mp hmem with hmem | hmem
    · exact hmem
    · exact absurd (List.mem_singleton.mp hmem).symm (hinserted id subject)
  exact
    { keys := h.keys
      fresh := hids.symm ▸ h.fresh
      inserted := fun row hrow => List.mem_append_left _ (h.inserted row hrow)
      leased := fun row hrow lease hlease => (htokens row.id).symm ▸ h.leased row hrow lease hlease
      kept := fun id subject hmem => (h.kept id subject (hold hmem)).imp_right fun ⟨token, hmem⟩ =>
        ⟨token, List.mem_append_left _ hmem⟩
      earned := h.earned.append_of_none fun token id subject hmem =>
        hdeleted token id subject (List.mem_singleton.mp hmem).symm }

/-- A claim keeps the ids. -/
theorem map_id_claimed (p : OutboxRow → Bool) (token : String) (now : ℤ) (rows : List OutboxRow) :
    (updateWhere p (fun row => row.claimed token now) rows).map OutboxRow.id =
      rows.map OutboxRow.id :=
  map_key_updateWhere fun _ => rfl

theorem OutboxInv.claimBatch (h : OutboxInv outbox) (target : RevocationTarget) (now : ℤ)
    (token : String) : OutboxInv (outbox.claimBatch toLowerCase target now token) where
  keys := by
    have hkeys := map_id_claimed (claims toLowerCase target now outbox.rows) token now outbox.rows
    exact hkeys.symm ▸ h.keys
  fresh := by
    rw [Outbox.claimBatch, insertedIds_append]
    exact (List.append_nil (insertedIds outbox.history)).symm ▸ h.fresh
  inserted row hrow := by
    refine List.mem_append_left _ ?_
    rcases mem_updateWhere.mp hrow with ⟨old, hold, -, rfl⟩ | ⟨hold, -⟩
    · exact h.inserted old hold
    · exact h.inserted row hold
  leased row hrow lease hlease := by
    rw [Outbox.claimBatch, tokensOf_append]
    rcases mem_updateWhere.mp hrow with ⟨old, hold, hp, rfl⟩ | ⟨hold, hp⟩
    · cases hlease
      have hmem : old.id ∈ (outbox.rows.filter
          (claims toLowerCase target now outbox.rows)).map OutboxRow.id :=
        List.mem_map_of_mem (List.mem_filter.mpr ⟨hold, hp⟩)
      simp [tokensOf, OutboxRow.claimed, hmem]
    · have hnot : row.id ∉ (outbox.rows.filter
          (claims toLowerCase target now outbox.rows)).map OutboxRow.id := by
        rintro hmem
        obtain ⟨other, hother, heq⟩ := List.mem_map.mp hmem
        obtain ⟨hother, hclaims⟩ := List.mem_filter.mp hother
        rw [eq_of_key_eq h.keys hother hold heq, hp] at hclaims
        cases hclaims
      simpa [tokensOf, hnot] using h.leased row hold lease hlease
  kept id subject hmem := by
    rw [Outbox.claimBatch, map_id_claimed]
    have hmem : .inserted id subject ∈ outbox.history := by
      simpa [Outbox.claimBatch] using hmem
    exact (h.kept id subject hmem).imp_right fun ⟨token, hmem⟩ =>
      ⟨token, List.mem_append_left _ hmem⟩
  earned := h.earned.append_of_none fun token id subject hmem => by
    simp at hmem

/-- The rows of a claim, with what the history says of them. -/
theorem claimed_of_mem (h : OutboxInv outbox) {target : RevocationTarget} {now : ℤ}
    {row : ClaimedRow} (hrow : row ∈ outbox.claimedRows toLowerCase target now token) :
    Claimed token row.id row.subject (outbox.claimBatch toLowerCase target now token).history := by
  obtain ⟨old, hold, rfl⟩ := List.mem_map.mp hrow
  refine ⟨(outbox.rows.filter (claims toLowerCase target now outbox.rows)).map OutboxRow.id,
    List.mem_map.mpr ⟨old, hold, rfl⟩, ?_⟩
  have hinserted := h.inserted old (List.mem_filter.mp hold).1
  exact (List.singleton_sublist.mpr hinserted).append (List.Sublist.refl _)

theorem Outbox.insert_rows (outbox : Outbox) (revoked : List (String × Subject)) (now : ℤ) :
    (outbox.insert revoked now).rows =
      outbox.rows ++ revoked.map fun r => insertedRow r.1 r.2 now := rfl

theorem Outbox.insert_history (outbox : Outbox) (revoked : List (String × Subject)) (now : ℤ) :
    (outbox.insert revoked now).history =
      outbox.history ++ revoked.map fun r => .inserted r.1 r.2 := rfl

theorem OutboxInv.insert (h : OutboxInv outbox) {revoked : List (String × Subject)} (now : ℤ)
    (hnodup : (revoked.map Prod.fst).Nodup)
    (hfresh : ∀ id ∈ revoked.map Prod.fst, id ∉ insertedIds outbox.history) :
    OutboxInv (outbox.insert revoked now) := by
  have hids : insertedIds (revoked.map fun r => .inserted r.1 r.2) =
      revoked.map Prod.fst := by
    rw [insertedIds, List.filterMap_map]
    exact congrFun List.filterMap_eq_map revoked
  have htokens : ∀ id, tokensOf id (revoked.map fun r => .inserted r.1 r.2) = [] :=
    fun id => tokensOf_eq_nil (by simp)
  have hrows : (revoked.map fun r => insertedRow r.1 r.2 now).map OutboxRow.id =
      revoked.map Prod.fst := by
    rw [List.map_map]
    rfl
  constructor
  case keys =>
    rw [Outbox.insert_rows, List.map_append, hrows]
    refine List.nodup_append.mpr ⟨h.keys, hnodup, fun id hid id' hid' heq => ?_⟩
    obtain ⟨row, hrow, rfl⟩ := List.mem_map.mp hid
    exact hfresh id' hid' (heq ▸ mem_insertedIds.mpr ⟨_, h.inserted row hrow⟩)
  case fresh =>
    rw [Outbox.insert_history, insertedIds_append, hids]
    exact List.nodup_append.mpr ⟨h.fresh, hnodup, fun id hid id' hid' heq =>
      hfresh id' hid' (heq ▸ hid)⟩
  case inserted =>
    intro row hrow
    rcases List.mem_append.mp hrow with hrow | hrow
    · exact List.mem_append_left _ (h.inserted row hrow)
    · obtain ⟨⟨id, subject⟩, hmem, rfl⟩ := List.mem_map.mp hrow
      exact List.mem_append_right _ (List.mem_map.mpr ⟨(id, subject), hmem, rfl⟩)
  case leased =>
    intro row hrow lease hlease
    rw [Outbox.insert_history, tokensOf_append, htokens, List.append_nil]
    rcases List.mem_append.mp hrow with hrow | hrow
    · exact h.leased row hrow lease hlease
    · obtain ⟨⟨id, subject⟩, -, rfl⟩ := List.mem_map.mp hrow
      cases hlease
  case kept =>
    intro id subject hmem
    rcases List.mem_append.mp hmem with hmem | hmem
    · rcases h.kept id subject hmem with hrow | ⟨token, hdeleted⟩
      · refine .inl ?_
        rw [Outbox.insert_rows, List.map_append]
        exact List.mem_append_left _ hrow
      · exact .inr ⟨token, List.mem_append_left _ hdeleted⟩
    · obtain ⟨⟨id', subject'⟩, hrevoked, heq⟩ := List.mem_map.mp hmem
      cases heq
      refine .inl ?_
      rw [Outbox.insert_rows, List.map_append, hrows]
      exact List.mem_append_right _ (List.mem_map_of_mem hrevoked)
  case earned =>
    refine h.earned.append_of_none fun token id subject hmem => ?_
    obtain ⟨_, -, heq⟩ := List.mem_map.mp hmem
    cases heq

/-- A worker who holds a row and reconciled what it is about may delete it. -/
theorem OutboxInv.complete (h : OutboxInv outbox)
    (hreconciled : Reconciled token id subject outbox.history) :
    OutboxInv (outbox.complete id token) := by
  have hinserted : .inserted id subject ∈ outbox.history := by
    obtain ⟨ids, -, hsub⟩ := hreconciled
    exact hsub.subset List.mem_cons_self
  have hheld : ∀ row ∈ outbox.rows.filter (fun row => row.heldBy id token),
      row.id = id ∧ row.subject = subject ∧ (tokensOf id outbox.history).getLast? = some token := by
    intro row hrow
    obtain ⟨hrow, hheld⟩ := List.mem_filter.mp hrow
    obtain ⟨hid, lease, hlease, htoken⟩ := heldBy_iff.mp hheld
    have hsubject := inserted_unique h.fresh (hid ▸ h.inserted row hrow) hinserted
    exact ⟨hid, hsubject, hid ▸ htoken ▸ h.leased row hrow lease hlease⟩
  have hids : insertedIds (outbox.deletions id token) = [] :=
    insertedIds_eq_nil (by simp [Outbox.deletions])
  have htokens : ∀ id', tokensOf id' (outbox.deletions id token) = [] :=
    fun id' => tokensOf_eq_nil (by simp [Outbox.deletions])
  constructor
  case keys => exact nodup_deleteWhere h.keys
  case fresh =>
    rw [Outbox.complete, insertedIds_append, hids, List.append_nil]
    exact h.fresh
  case inserted =>
    intro row hrow
    exact List.mem_append_left _ (h.inserted row (mem_deleteWhere.mp hrow).1)
  case leased =>
    intro row hrow lease hlease
    rw [Outbox.complete, tokensOf_append, htokens, List.append_nil]
    exact h.leased row (mem_deleteWhere.mp hrow).1 lease hlease
  case kept =>
    intro id' subject' hmem
    rcases List.mem_append.mp hmem with hmem | hmem
    · rcases h.kept id' subject' hmem with hrow | ⟨token', hdeleted⟩
      · obtain ⟨row, hmemrow, rfl⟩ := List.mem_map.mp hrow
        cases hheld' : row.heldBy id token with
        | false =>
            exact .inl (List.mem_map_of_mem (mem_deleteWhere.mpr ⟨hmemrow, hheld'⟩))
        | true =>
            refine .inr ⟨token, List.mem_append_right _ (List.mem_map.mpr
              ⟨row, List.mem_filter.mpr ⟨hmemrow, hheld'⟩, ?_⟩)⟩
            rw [inserted_unique h.fresh (h.inserted row hmemrow) hmem]
      · exact .inr ⟨token', List.mem_append_left _ hdeleted⟩
    · obtain ⟨_, -, heq⟩ := List.mem_map.mp hmem
      cases heq
  case earned =>
    refine h.earned.append fun before after token' id' subject' heq => ?_
    have hmem : .deleted token' id' subject' ∈ outbox.deletions id token :=
      heq ▸ List.mem_append_right _ List.mem_cons_self
    obtain ⟨row, hrow, hevent⟩ := List.mem_map.mp hmem
    obtain ⟨hid, hsubject, hlast⟩ := hheld row hrow
    obtain ⟨rfl, rfl, rfl⟩ := Event.deleted.inj hevent
    rw [hid, hsubject]
    have hbefore : tokensOf id before = [] := by
      refine tokensOf_eq_nil fun token' ids hclaimed => ?_
      have hdeleted := List.mem_append_left (.deleted token row.id row.subject :: after) hclaimed
      rw [← heq] at hdeleted
      obtain ⟨_, -, hevent⟩ := List.mem_map.mp hdeleted
      cases hevent
    refine ⟨hreconciled.mono (List.prefix_append _ _), ?_⟩
    rw [tokensOf_append, hbefore, List.append_nil]
    exact hlast

end MailPortal.Revocation
