import MailPortal.Drafts.DraftWrites

/-!
# What an Operation Does to a Save

The row of a save key stays, or changes in one of six ways (`RowChange`). A write of a draft is
refused, or goes through (`Written`).

Main results:

* `rowChange_step` : what a step does to the row of a key.
* `upsertDraft_cases` : a write is refused and changes nothing, or goes through.
-/

namespace MailPortal.Drafts

open Failure DraftTables Table

variable {t t' : DraftTables}

/-! ### The row of a key -/

/-- The row that a claim leaves. -/
def ClaimInput.row (input : ClaimInput) (now : ℤ) : DraftSaveOperation :=
  { saveKey := input.saveKey
    fingerprint := input.fingerprint
    draftId := input.draftId
    expectedVersion := input.expectedVersion
    state := .claimed
    destinationKeys := []
    committedVersion := none
    claimExpiresAt := input.claimExpiresAt
    claimToken := some input.claimToken
    updatedAt := now }

/-- What a call does to the row of a key. -/
inductive RowChange (t : DraftTables) (call : DraftCall) :
    Option DraftSaveOperation → Option DraftSaveOperation → Prop
  | kept (row) : RowChange t call row row
  | pruned {row : DraftSaveOperation} {input : ClaimInput} {now : ℤ}
      (hcall : call = .claim input now) (hretired : row.retired now = true) :
      RowChange t call (some row) none
  | granted {row : Option DraftSaveOperation} {input : ClaimInput} {now : ℤ}
      (hcall : call = .claim input now)
      (hgranted : ∃ stale, (claimDraftSave input now t).1 = .claimed stale)
      (hfree : ∀ old ∈ row, old.saveKey = input.saveKey ∧
        (old.state = .committed → old.retired now = true)) :
      RowChange t call row (some (input.row now))
  | recorded {row : DraftSaveOperation} (keys : List String) (now : ℤ)
      (hclaimed : row.state = .claimed) :
      RowChange t call (some row) (some { row with destinationKeys := keys, updatedAt := now })
  | ended {row : DraftSaveOperation} (now : ℤ) (hclaimed : row.state = .claimed) :
      RowChange t call (some row) (some { row with state := .aborted, updatedAt := now })
  | refreshed {row : DraftSaveOperation} (now : ℤ) (hover : row.state ≠ .claimed) :
      RowChange t call (some row) (some { row with updatedAt := now })
  | committed {row : DraftSaveOperation} {input : UpsertInput} {attachments : List AttachmentRow}
      {now : ℤ} {claim : SaveClaim} {draftVersion : ℕ} {replaced : List AttachmentRow}
      {draft : DraftSnapshot} {t' : DraftTables}
      (hcall : call = .upsert input attachments now) (hclaim : input.saveClaim = some claim)
      (hsaved : upsertDraft input attachments now t =
        .ok (.saved input.id draftVersion replaced draft, t'))
      (hrow : row.claimedBy claim.saveKey claim.fingerprint claim.claimToken = true) :
      RowChange t call (some row)
        (some { row with
          state := .committed, committedVersion := some draftVersion, updatedAt := now })

/-- The row stays, or its claim is ended. -/
inductive Ended : Option DraftSaveOperation → Option DraftSaveOperation → Prop
  | kept (row) : Ended row row
  | ended {row : DraftSaveOperation} (now : ℤ) (hclaimed : row.state = .claimed) :
      Ended (some row) (some { row with state := .aborted, updatedAt := now })

theorem Ended.trans {a b c : Option DraftSaveOperation} (hab : Ended a b) (hbc : Ended b c) :
    Ended a c := by
  cases hab with
  | kept => exact hbc
  | ended now hclaimed =>
      cases hbc with
      | kept => exact .ended now hclaimed
      | ended now' hclaimed' => cases hclaimed'

theorem Ended.rowChange {call : DraftCall} {a b : Option DraftSaveOperation} (h : Ended a b) :
    RowChange t call a b := by
  cases h with
  | kept => exact .kept _
  | ended now hclaimed => exact .ended now hclaimed

/-- Ending the claims that meet a condition. -/
theorem ended_updateWhere {p : DraftSaveOperation → Bool} {now : ℤ}
    {saves : List DraftSaveOperation} (hp : ∀ row, p row = true → row.state = .claimed)
    (k : String) :
    Ended (lookup DraftSaveOperation.saveKey k saves)
      (lookup DraftSaveOperation.saveKey k
        (updateWhere p (fun row => { row with state := .aborted, updatedAt := now })
          saves)) := by
  have hkey : ∀ row : DraftSaveOperation,
      ({ row with state := .aborted, updatedAt := now } : DraftSaveOperation).saveKey =
        row.saveKey := fun _ => rfl
  rw [lookup_updateWhere hkey]
  cases h : lookup DraftSaveOperation.saveKey k saves with
  | none => exact .kept none
  | some row =>
      cases hrow : p row with
      | false => simpa [hrow] using Ended.kept (some row)
      | true => simpa [hrow] using Ended.ended now (hp row hrow)

theorem claims_iff {row : DraftSaveOperation} {draftId : String} {expectedVersion : ℕ} :
    row.claims draftId expectedVersion = true ↔ row.draftId = draftId ∧
      row.expectedVersion = expectedVersion ∧ row.state = .claimed := by
  simp [DraftSaveOperation.claims, and_assoc]

theorem claimedBy_iff {row : DraftSaveOperation} {saveKey fingerprint claimToken : String} :
    row.claimedBy saveKey fingerprint claimToken = true ↔ row.saveKey = saveKey ∧
      row.fingerprint = fingerprint ∧ row.claimToken = some claimToken ∧ row.state = .claimed := by
  simp [DraftSaveOperation.claimedBy, and_assoc]

theorem expired_iff {row : DraftSaveOperation} {now : ℤ} :
    row.expired now = true ↔ row.state = .claimed ∧ row.claimExpiresAt ≤ now := by
  simp [DraftSaveOperation.expired]

theorem retired_iff {row : DraftSaveOperation} {now : ℤ} :
    row.retired now = true ↔ row.state ≠ .claimed ∧ row.updatedAt ≤ now - replayRetentionMs := by
  simp [DraftSaveOperation.retired]

/-! ### Claims -/

theorem mem_retiredOperations {row : DraftSaveOperation} {now : ℤ}
    {saves : List DraftSaveOperation} (h : row ∈ retiredOperations now saves) :
    row ∈ saves ∧ row.retired now = true := by
  have hsorted := List.mem_of_mem_take h
  rw [List.mem_insertionSort] at hsorted
  exact List.mem_filter.mp hsorted

/-- A claim deletes rows of operations that are over for long. -/
theorem save_pruneRetired (hnd : (t.saves.map DraftSaveOperation.saveKey).Nodup) (now : ℤ)
    (k : String) :
    (pruneRetired now t).save k = t.save k ∨
      ∃ row, t.save k = some row ∧ row.retired now = true ∧ (pruneRetired now t).save k = none := by
  rw [save, save, pruneRetired, lookup_deleteWhere hnd]
  cases h : lookup DraftSaveOperation.saveKey k t.saves with
  | none => exact .inl rfl
  | some row =>
      cases hp : (retiredOperations now t.saves).any fun old => old.saveKey = row.saveKey with
      | false => exact .inl (by simp [Option.filter, hp])
      | true =>
          obtain ⟨old, hold, hkey⟩ := List.any_eq_true.mp hp
          obtain ⟨hmem, hretired⟩ := mem_retiredOperations hold
          have hrow := (lookup_eq_some h).1
          obtain rfl := eq_of_key_eq hnd hmem hrow (of_decide_eq_true hkey)
          exact .inr ⟨old, rfl, hretired, by simp [Option.filter, hp]⟩

theorem save_endExpiredClaims (draftId : String) (expectedVersion : ℕ) (now : ℤ) (k : String) :
    Ended (t.save k) ((endExpiredClaims draftId expectedVersion now t).save k) :=
  ended_updateWhere (fun _ hrow => (claims_iff.mp (Bool.and_eq_true_iff.mp hrow).1).2.2) k

theorem save_insertClaim (input : ClaimInput) (now : ℤ)
    (hsame : ∀ old ∈ t.save input.saveKey, input.conflicts old = false) (k : String) :
    (insertClaim input now t).save k =
      if input.saveKey = k then some (input.row now) else t.save k := by
  rw [save, insertClaim, lookup_upsert]
  case hkey => exact fun _ => rfl
  cases h : t.save input.saveKey with
  | none =>
      rw [save] at h
      rw [h]
      rfl
  | some old =>
      have hconflicts := hsame old h
      simp only [ClaimInput.conflicts, Bool.or_eq_false_iff, decide_eq_false_iff_not,
        Decidable.not_not] at hconflicts
      obtain ⟨⟨hfingerprint, hdraft⟩, hversion⟩ := hconflicts
      rw [save] at h
      simp only [h, Option.map_some, Option.getD_some, hfingerprint, hdraft, hversion]
      rfl

/-- What a claim does with the tables. -/
inductive ClaimCase (t : DraftTables) (input : ClaimInput) (now : ℤ) :
    ClaimDraftSaveResult × DraftTables → Prop
  | answered {result : ClaimDraftSaveResult} (hresult : ∀ stale, result ≠ .claimed stale) :
      ClaimCase t input now (result, pruneRetired now t)
  | refused {result : ClaimDraftSaveResult} (hresult : ∀ stale, result ≠ .claimed stale) :
      ClaimCase t input now (result,
        endExpiredClaims input.draftId input.expectedVersion now (pruneRetired now t))
  | granted {stale : List StalePromotion}
      (hsame : ∀ old ∈ (pruneRetired now t).save input.saveKey,
        input.conflicts old = false ∧ old.state ≠ .committed)
      (halone : ∀ row ∈
        (endExpiredClaims input.draftId input.expectedVersion now (pruneRetired now t)).saves,
        row.claims input.draftId input.expectedVersion = false)
      (hversion : refuseVersion (t.email input.draftId) input.expectedVersion = none) :
      ClaimCase t input now (.claimed stale, insertClaim input now
        (endExpiredClaims input.draftId input.expectedVersion now (pruneRetired now t)))

/-- A refusal is not a claim. -/
theorem refuseVersion_ne_claimed {draft : Option EmailRow} {expectedVersion : ℕ}
    {stale : List StalePromotion} :
    refuseVersion draft expectedVersion ≠ some (.claimed stale) := by
  intro h
  cases draft with
  | none =>
      simp only [refuseVersion] at h
      split at h <;> cases h
  | some draft =>
      simp only [refuseVersion] at h
      repeat' split at h
      all_goals cases h

theorem claimRevision_cases (input : ClaimInput) (now : ℤ)
    (hsame : ∀ old ∈ (pruneRetired now t).save input.saveKey,
      input.conflicts old = false ∧ old.state ≠ .committed) :
    ClaimCase t input now (claimRevision input now (pruneRetired now t)) := by
  rw [claimRevision]
  split
  · exact .refused (by simp)
  · rename_i halone
    split
    · rename_i refusal hrefusal
      exact .refused fun stale hstale => refuseVersion_ne_claimed (hstale ▸ hrefusal)
    · rename_i hversion
      refine .granted hsame (fun row hrow => ?_) hversion
      simpa using fun hclaims => halone (List.any_eq_true.mpr ⟨row, hrow, hclaims⟩)

theorem claimDraftSave_cases (input : ClaimInput) (now : ℤ) :
    ClaimCase t input now (claimDraftSave input now t) := by
  rw [claimDraftSave]
  cases h : (pruneRetired now t).save input.saveKey with
  | none =>
      refine claimRevision_cases input now fun old hold => ?_
      rw [h] at hold
      cases hold
  | some existing =>
      dsimp only
      split
      · exact .answered (by simp)
      · rename_i hconflicts
        split
        · exact .answered (by simp)
        · rename_i hstate
          split
          · exact .answered (by simp)
          · refine claimRevision_cases input now fun old hold => ?_
            rw [h] at hold
            cases hold
            exact ⟨by simpa using hconflicts, hstate⟩

/-- A row that is deleted, or whose claim is ended, before another key is claimed. -/
theorem rowChange_prepare (hnd : (t.saves.map DraftSaveOperation.saveKey).Nodup)
    (input : ClaimInput) (now : ℤ) {call : DraftCall} (hcall : call = .claim input now)
    (k : String) :
    RowChange t call (t.save k) ((endExpiredClaims input.draftId input.expectedVersion now
      (pruneRetired now t)).save k) := by
  have hended := save_endExpiredClaims (t := pruneRetired now t) input.draftId
    input.expectedVersion now k
  rcases save_pruneRetired hnd now k with hkept | ⟨row, hrow, hretired, hgone⟩
  · rw [hkept] at hended
    exact hended.rowChange
  · rw [hgone] at hended
    rw [hrow]
    generalize (endExpiredClaims _ _ _ _).save k = new at hended
    cases hended
    exact .pruned hcall hretired

/-- The rows after a claim that is granted. -/
theorem save_granted (input : ClaimInput) (now : ℤ)
    (hsame : ∀ old ∈ (pruneRetired now t).save input.saveKey,
      input.conflicts old = false ∧ old.state ≠ .committed) (k : String) :
    (insertClaim input now (endExpiredClaims input.draftId input.expectedVersion now
      (pruneRetired now t))).save k =
      if input.saveKey = k then some (input.row now)
      else (endExpiredClaims input.draftId input.expectedVersion now (pruneRetired now t)).save
        k := by
  refine save_insertClaim input now (fun old hold => ?_) k
  have hended := save_endExpiredClaims (t := pruneRetired now t) input.draftId
    input.expectedVersion now input.saveKey
  rw [Option.mem_def.mp hold] at hended
  generalize hrow : (pruneRetired now t).save input.saveKey = row at hended
  cases hended with
  | kept => exact (hsame old hrow).1
  | ended => exact (hsame _ hrow).1

/-- The row of a claim that is granted. -/
theorem save_of_granted {input : ClaimInput} {now : ℤ} {stale : List StalePromotion}
    (hgranted : (claimDraftSave input now t).1 = .claimed stale) :
    (claimDraftSave input now t).2.save input.saveKey = some (input.row now) := by
  have h := claimDraftSave_cases (t := t) input now
  generalize claimDraftSave input now t = result at h hgranted
  cases h with
  | answered hresult => exact absurd hgranted (hresult stale)
  | refused hresult => exact absurd hgranted (hresult stale)
  | granted hsame => rw [save_granted input now hsame, if_pos rfl]

theorem rowChange_claim (hnd : (t.saves.map DraftSaveOperation.saveKey).Nodup)
    (input : ClaimInput) (now : ℤ) (k : String) :
    RowChange t (.claim input now) (t.save k) ((claimDraftSave input now t).2.save k) := by
  have hresult : ∀ result, claimDraftSave input now t = result → ClaimCase t input now result :=
    fun result h => h ▸ claimDraftSave_cases input now
  obtain ⟨result, hr⟩ : ∃ result, claimDraftSave input now t = result := ⟨_, rfl⟩
  rw [hr]
  cases hresult result hr with
  | answered =>
      rcases save_pruneRetired hnd now k with hkept | ⟨row, hrow, hretired, hgone⟩
      · rw [hkept]
        exact .kept _
      · rw [hrow, hgone]
        exact .pruned rfl hretired
  | refused => exact rowChange_prepare hnd input now rfl k
  | @granted stale hsame =>
      rw [save_granted input now hsame]
      split
      · rename_i hk
        subst hk
        refine .granted rfl ⟨stale, by rw [hr]⟩ fun old hold => ⟨(lookup_eq_some hold).2, ?_⟩
        intro hcommitted
        rcases save_pruneRetired hnd now input.saveKey with hkept | ⟨row, hrow, hretired, -⟩
        · exact absurd hcommitted (hsame old (hkept.trans hold)).2
        · rw [Option.mem_def.mp hold] at hrow
          exact Option.some.inj hrow ▸ hretired
      · exact rowChange_prepare hnd input now rfl k

/-! ### Promotions and ends -/

theorem rowChange_record (call : DraftCall) (saveKey fingerprint claimToken : String)
    (destinationKeys : List String) (now : ℤ) (k : String) :
    RowChange t call (t.save k)
      ((recordDraftSavePromotion saveKey fingerprint claimToken destinationKeys now t).2.save
        k) := by
  rw [recordDraftSavePromotion]
  split
  · exact .kept _
  · rename_i keys hkeys
    have hkey : ∀ row : DraftSaveOperation,
        ({ row with destinationKeys := keys, updatedAt := now } : DraftSaveOperation).saveKey =
          row.saveKey := fun _ => rfl
    rw [save, save, lookup_updateWhere hkey]
    cases lookup DraftSaveOperation.saveKey k t.saves with
    | none => exact .kept none
    | some row =>
        rw [Option.map_some]
        split
        · rename_i hrow
          exact .recorded keys now (claimedBy_iff.mp hrow).2.2.2
        · exact .kept _

theorem rowChange_abort (call : DraftCall) (saveKey fingerprint claimToken : String) (now : ℤ)
    (k : String) :
    RowChange t call (t.save k)
      ((abortDraftSave saveKey fingerprint claimToken now t).2.save k) := by
  rw [abortDraftSave]
  split
  · exact .kept _
  · exact (ended_updateWhere (fun _ hrow => (claimedBy_iff.mp hrow).2.2.2) k).rowChange

theorem ended_promoteExpired (now : ℤ) (operations : List DraftSaveOperation) (k : String) :
    Ended (t.save k) ((operations.foldl (promoteExpiredClaim now) t).save k) := by
  induction operations generalizing t with
  | nil => exact .kept _
  | cons operation operations ih =>
      rw [List.foldl_cons]
      refine Ended.trans ?_ ih
      exact ended_updateWhere
        (fun _ hrow => (expired_iff.mp (Bool.and_eq_true_iff.mp hrow).2).1) k

theorem rowChange_expire (call : DraftCall) (now : ℤ) (k : String) :
    RowChange t call (t.save k) ((promoteExpiredClaims now t).2.save k) :=
  (ended_promoteExpired now _ k).rowChange

/-! ### Removals -/

/-- Nothing but the outbox of deletions changes. -/
theorem enqueueR2Deletion_eq (deletion : R2Deletion) :
    ∃ deletions, enqueueR2Deletion deletion t = { t with deletions } := by
  rw [enqueueR2Deletion]
  split
  · exact ⟨t.deletions, rfl⟩
  · exact ⟨_, rfl⟩

theorem foldl_enqueueR2Deletion (keys : List String) (id : String) (now : ℤ) :
    ∃ deletions, keys.foldl (fun t r2Key => enqueueR2Deletion ⟨r2Key, id, now⟩ t) t =
      { t with deletions } := by
  induction keys generalizing t with
  | nil => exact ⟨t.deletions, rfl⟩
  | cons key keys ih =>
      rw [List.foldl_cons]
      obtain ⟨deletions, hrest⟩ := ih (t := enqueueR2Deletion ⟨key, id, now⟩ t)
      obtain ⟨_, hfirst⟩ := enqueueR2Deletion_eq (t := t) ⟨key, id, now⟩
      exact ⟨deletions, by rw [hrest, hfirst]⟩

/-- A removal leaves the outbox, the creations and the saves with what they are to know. -/
theorem removeDraft_eq (id : String) (expectedVersion : ℕ) (state : DraftCreateState) (now : ℤ) :
    ∃ deletions, removeDraft id expectedVersion state now t = deleteEmail id expectedVersion
      { t with
        saves := updateWhere
          (fun row => decide (row.draftId = id) && decide (row.state ≠ .claimed))
          (fun row => { row with updatedAt := now }) t.saves
        creations := updateWhere (fun row => decide (row.draftId = id))
          (fun row => { row with state, draftVersion := expectedVersion, updatedAt := now })
          t.creations
        deletions } := by
  obtain ⟨deletions, heq⟩ :=
    foldl_enqueueR2Deletion (t := t) ((t.attachmentsOf id).map storedAttachmentKey) id now
  exact ⟨deletions, by rw [removeDraft, heq, markDraftCreateOperation, refreshTerminalRetention]⟩

theorem rowChange_remove (call : DraftCall) (id : String) (expectedVersion : ℕ)
    (state : DraftCreateState) (now : ℤ) (k : String) :
    RowChange t call (t.save k) ((removeDraftVersion id expectedVersion state now t).2.save k) := by
  rw [removeDraftVersion]
  split
  · exact .kept _
  · have hkey : ∀ row : DraftSaveOperation,
        ({ row with updatedAt := now } : DraftSaveOperation).saveKey = row.saveKey := fun _ => rfl
    have hsaves : (removeDraft id expectedVersion state now t).saves = updateWhere
        (fun row => decide (row.draftId = id) && decide (row.state ≠ .claimed))
        (fun row => { row with updatedAt := now }) t.saves := by
      obtain ⟨_, heq⟩ := removeDraft_eq (t := t) id expectedVersion state now
      rw [heq, deleteEmail]
    rw [save, save, hsaves, lookup_updateWhere hkey]
    cases lookup DraftSaveOperation.saveKey k t.saves with
    | none => exact .kept none
    | some row =>
        rw [Option.map_some]
        split
        · rename_i hrow
          exact .refreshed now (of_decide_eq_true (Bool.and_eq_true_iff.mp hrow).2)
        · exact .kept _

/-! ### Writes -/

theorem enqueueUnownedR2Deletion_eq (emailId : String) (keys : List String) (now : ℤ) :
    ∃ deletions, enqueueUnownedR2Deletion emailId keys now t = { t with deletions } := by
  rw [enqueueUnownedR2Deletion]
  generalize keys.eraseDups = keys
  induction keys generalizing t with
  | nil => exact ⟨t.deletions, rfl⟩
  | cons key keys ih =>
      rw [List.foldl_cons]
      split
      · exact ih
      · obtain ⟨deletions, hrest⟩ := ih (t := enqueueR2Deletion ⟨key, emailId, now⟩ t)
        obtain ⟨_, hfirst⟩ := enqueueR2Deletion_eq (t := t) ⟨key, emailId, now⟩
        exact ⟨deletions, by rw [hrest, hfirst]⟩

theorem insertAttachments_keeps {attachments : List AttachmentRow}
    (h : insertAttachments attachments t = .ok t') :
    t'.saves = t.saves ∧ t'.emails = t.emails ∧ t'.creations = t.creations := by
  rw [insertAttachments] at h
  obtain ⟨_, -, h⟩ := bind_eq_ok.mp h
  obtain ⟨_, -, h⟩ := bind_eq_ok.mp h
  obtain rfl := pure_eq_ok.mp h
  exact ⟨rfl, rfl, rfl⟩

section

variable (claim : Option SaveClaim) (draftVersion : ℕ) (now : ℤ)
include claim draftVersion now

/-- The commit says nothing of the drafts. -/
theorem commitSave_keeps :
    (commitSave claim draftVersion now t).emails = t.emails ∧
      (commitSave claim draftVersion now t).creations = t.creations := by
  cases claim with
  | none => exact ⟨rfl, rfl⟩
  | some claim => exact ⟨rfl, rfl⟩

theorem commitSave_intents : (commitSave claim draftVersion now t).intents = t.intents := by
  cases claim <;> rfl

theorem commitSave_attachments :
    (commitSave claim draftVersion now t).attachments = t.attachments := by
  cases claim <;> rfl

end

theorem commitSave_saves {u : DraftTables} (hsaves : u.saves = t.saves) (claim : Option SaveClaim)
    (draftVersion : ℕ) (now : ℤ) :
    (commitSave claim draftVersion now u).saves = (commitSave claim draftVersion now t).saves := by
  cases claim with
  | none => exact hsaves
  | some claim =>
      rw [commitSave, commitSave]
      dsimp only
      rw [hsaves]

/-- A write that goes through. -/
structure Written (input : UpsertInput) (now : ℤ) (t : DraftTables) (draftVersion : ℕ)
    (t' : DraftTables) : Prop where
  claim : refuseClaim input t = none
  creation : refuseCreation input t = none
  stored : t.versionOf input.id = input.expectedVersion
  folder : ∀ existing ∈ t.email input.id, existing.folderId = draftFolder
  version : draftVersion = input.expectedVersion.getD 0 + 1
  after : t'.versionOf input.id = some draftVersion
  saves : t'.saves = (commitSave input.saveClaim draftVersion now t).saves
  placed : ∃ u, placeDraft input (t.email input.id) now t = .ok u ∧ t'.emails = u.emails ∧
    t'.creations = u.creations

theorem placeDraft_saves {input : UpsertInput} {existing : Option EmailRow} {now : ℤ}
    (h : placeDraft input existing now t = .ok t') : t'.saves = t.saves := by
  cases existing with
  | some existing =>
      obtain rfl := pure_eq_ok.mp h
      rfl
  | none =>
      obtain ⟨_, -, h⟩ := bind_eq_ok.mp h
      obtain rfl := pure_eq_ok.mp h
      rfl

/-- What the source calls the draft version of a write. -/
theorem versionOf_of_readDraftSnapshot {id : String} {draft : DraftSnapshot}
    (h : readDraftSnapshot id t = some draft) : t.versionOf id = some draft.draft.draftVersion := by
  rw [readDraftSnapshot] at h
  split at h
  · rename_i email hemail
    split at h
    · cases h
    · cases h
      rw [versionOf, hemail]
      rfl
  · cases h

theorem writeDraft_written {input : UpsertInput} {attachments : List AttachmentRow} {now : ℤ}
    {result : UpsertDraftResult} (hclaim : refuseClaim input t = none)
    (hcreation : refuseCreation input t = none)
    (hwrite : refuseWrite (t.email input.id) input.expectedVersion = none)
    (h : writeDraft input attachments (t.email input.id) now t = .ok (result, t')) :
    ∃ draftVersion replaced draft, result = .saved input.id draftVersion replaced draft ∧
      Written input now t draftVersion t' := by
  have hstored : t.versionOf input.id = input.expectedVersion ∧
      ∀ existing ∈ t.email input.id, existing.folderId = draftFolder := by
    rw [versionOf]
    cases hexisting : t.email input.id with
    | none =>
        rw [hexisting] at hwrite
        cases hexpected : input.expectedVersion with
        | none => simp
        | some expected => simp [refuseWrite, hexpected] at hwrite
    | some existing =>
        simp only [hexisting, refuseWrite] at hwrite
        split at hwrite
        · cases hwrite
        · rename_i hfolder
          split at hwrite
          · cases hwrite
          · rename_i hversion
            exact ⟨(Decidable.not_not.mp hversion).symm, by simpa using hfolder⟩
  have hversion : ((t.email input.id).map fun row => row.draftVersion + 1).getD 1 =
      input.expectedVersion.getD 0 + 1 := by
    rw [← hstored.1, versionOf]
    cases t.email input.id <;> rfl
  rw [writeDraft.eq_def] at h
  obtain ⟨u, hplaced, h⟩ := bind_eq_ok.mp h
  obtain ⟨u', hattached, h⟩ := bind_eq_ok.mp h
  rw [hversion] at h
  have hplace : placeDraft input (t.email input.id) now t = .ok u := hplaced
  obtain ⟨hsaves, hemails, hcreations⟩ := insertAttachments_keeps hattached
  dsimp only at h
  split at h
  · rename_i draft hdraft
    obtain ⟨_, hmatch, h⟩ := bind_eq_ok.mp h
    cases h
    have hmatch := of_decide_eq_true (require_eq_ok.mp hmatch)
    obtain ⟨_, hqueued⟩ := enqueueUnownedR2Deletion_eq (t := u') input.id
      (((if (t.email input.id).isSome then t.attachmentsOf input.id else []).map
        storedAttachmentKey) ++ input.stagingCleanupKeys) now
    refine ⟨_, _, draft, rfl, ⟨hclaim, hcreation, hstored.1, hstored.2, rfl, ?_, ?_, u, hplace,
      ?_, ?_⟩⟩
    · rw [versionOf_of_readDraftSnapshot hdraft, hmatch]
    · refine commitSave_saves ?_ _ _ _
      rw [hqueued]
      exact hsaves.trans (placeDraft_saves hplace)
    · rw [(commitSave_keeps _ _ _).1, hqueued]
      exact hemails
    · rw [(commitSave_keeps _ _ _).2, hqueued]
      exact hcreations
  · cases h

/-- A write is refused and changes nothing, or it goes through. -/
theorem upsertDraft_cases {input : UpsertInput} {attachments : List AttachmentRow} {now : ℤ}
    {result : UpsertDraftResult} (h : upsertDraft input attachments now t = .ok (result, t')) :
    ((∀ id draftVersion replaced draft, result ≠ .saved id draftVersion replaced draft) ∧ t' = t) ∨
      ∃ draftVersion replaced draft, result = .saved input.id draftVersion replaced draft ∧
        Written input now t draftVersion t' := by
  rw [upsertDraft] at h
  obtain ⟨_, -, h⟩ := bind_eq_ok.mp h
  have hrefusal : ∀ refusal, ((refuseClaim input t).or (refuseCreation input t)).or
      (refuseWrite (t.email input.id) input.expectedVersion) = some refusal →
        ∀ id draftVersion replaced draft, refusal ≠ .saved id draftVersion replaced draft := by
    intro refusal hrefusal id draftVersion replaced draft hsaved
    subst hsaved
    rcases Option.or_eq_some_iff.mp hrefusal with hrefusal | ⟨-, hrefusal⟩
    · rcases Option.or_eq_some_iff.mp hrefusal with hrefusal | ⟨-, hrefusal⟩
      · rw [refuseClaim] at hrefusal
        repeat' split at hrefusal
        all_goals cases hrefusal
      · rw [refuseCreation] at hrefusal
        repeat' split at hrefusal
        all_goals cases hrefusal
    · generalize t.email input.id = existing at hrefusal
      cases existing with
      | none =>
          cases hexpected : input.expectedVersion <;> simp [refuseWrite, hexpected] at hrefusal
      | some existing =>
          simp only [refuseWrite] at hrefusal
          repeat' split at hrefusal
          all_goals cases hrefusal
  split at h
  · rename_i refusal hsome
    obtain ⟨rfl, rfl⟩ := Prod.mk.inj (pure_eq_ok.mp h)
    exact .inl ⟨hrefusal refusal hsome, rfl⟩
  · rename_i hnone
    obtain ⟨hnone, hwrite⟩ := Option.or_eq_none_iff.mp hnone
    obtain ⟨hclaim, hcreation⟩ := Option.or_eq_none_iff.mp hnone
    exact .inr (writeDraft_written hclaim hcreation hwrite h)

theorem rowChange_upsert (input : UpsertInput) (attachments : List AttachmentRow) (now : ℤ)
    (k : String) :
    RowChange t (.upsert input attachments now) (t.save k)
      ((draftStep t (.upsert input attachments now)).save k) := by
  rw [draftStep]
  cases h : upsertDraft input attachments now t with
  | error => exact .kept _
  | ok result =>
      obtain ⟨result, t'⟩ := result
      dsimp only
      rcases upsertDraft_cases h with ⟨-, rfl⟩ | ⟨draftVersion, replaced, draft, rfl, hwritten⟩
      · exact .kept _
      · rw [save, save, hwritten.saves]
        cases hclaim : input.saveClaim with
        | none => exact .kept _
        | some claim =>
            have hkey : ∀ row : DraftSaveOperation, ({ row with
                state := .committed, committedVersion := some draftVersion, updatedAt := now } :
                  DraftSaveOperation).saveKey = row.saveKey := fun _ => rfl
            rw [commitSave, lookup_updateWhere hkey]
            cases lookup DraftSaveOperation.saveKey k t.saves with
            | none => exact .kept none
            | some row =>
                rw [Option.map_some]
                split
                · rename_i hrow
                  exact .committed rfl hclaim h hrow
                · exact .kept _

/-- **What a step does to the row of a key.** -/
theorem rowChange_step (hnd : (t.saves.map DraftSaveOperation.saveKey).Nodup) (call : DraftCall)
    (k : String) : RowChange t call (t.save k) ((draftStep t call).save k) := by
  cases call with
  | claim input now => exact rowChange_claim hnd input now k
  | record saveKey fingerprint claimToken destinationKeys now =>
      exact rowChange_record _ saveKey fingerprint claimToken destinationKeys now k
  | abort saveKey fingerprint claimToken now =>
      exact rowChange_abort _ saveKey fingerprint claimToken now k
  | upsert input attachments now => exact rowChange_upsert input attachments now k
  | expire now => exact rowChange_expire _ now k
  | consume id expectedVersion now => exact rowChange_remove _ id expectedVersion .consumed now k
  | discard id expectedVersion now => exact rowChange_remove _ id expectedVersion .discarded now k

end MailPortal.Drafts
