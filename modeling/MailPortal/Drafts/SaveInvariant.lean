import MailPortal.Drafts.SaveRules

/-!
# Versions of a Draft

The version of a draft stays in a step, or the step wrote the draft at this version, or removed it.
In every run keys are distinct, one version of a draft has one claim at most, and a save was
committed with the version after the one it expected.

Main results:

* `versionChange_step` : what a step does to the version of a draft.
* `draftStep_inv` : the invariant of the tables.
-/

namespace MailPortal.Drafts

open Failure DraftSaveOperation Table

variable {t t' : DraftTables}
variable {id : String} {call : DraftCall} {row : DraftSaveOperation}
variable {u u' : DraftTables}

/-! ### The invariant -/

/-- **The invariant**: keys are unique, and one save at a time claims a version of a draft. -/
structure DraftInv (t : DraftTables) : Prop where
  ids : (t.emails.map EmailRow.id).Nodup
  keys : (t.saves.map saveKey).Nodup
  alone : ∀ row ∈ t.saves, ∀ row' ∈ t.saves, row.state = .claimed → row'.state = .claimed →
    row.draftId = row'.draftId → row.expectedVersion = row'.expectedVersion → row = row'
  commits : ∀ row ∈ t.saves, row.state = .committed →
    row.committedVersion = some (row.expectedVersion + 1)

theorem draftInv_init {emails : List EmailRow} (hids : (emails.map EmailRow.id).Nodup)
    (attachments : List AttachmentRow) (bodyObjectKeys : List String) :
    DraftInv (.init emails attachments bodyObjectKeys) :=
  ⟨hids, List.nodup_nil, by simp [DraftTables.init], by simp [DraftTables.init]⟩

/-! ### Draft rows -/

theorem claimDraftSave_keeps (input : ClaimInput) (now : ℤ) :
    (claimDraftSave input now t).2.emails = t.emails ∧
      (claimDraftSave input now t).2.attachments = t.attachments ∧
      (claimDraftSave input now t).2.creations = t.creations := by
  have h := claimDraftSave_cases (t := t) input now
  generalize claimDraftSave input now t = result at h
  cases h <;> exact ⟨rfl, rfl, rfl⟩

theorem recordDraftSavePromotion_keeps (saveKey fingerprint claimToken : String)
    (destinationKeys : List String) (now : ℤ) :
    (recordDraftSavePromotion saveKey fingerprint claimToken destinationKeys now t).2.emails =
        t.emails ∧
      (recordDraftSavePromotion saveKey fingerprint claimToken destinationKeys now t).2.creations =
        t.creations := by
  rw [recordDraftSavePromotion]
  split <;> exact ⟨rfl, rfl⟩

theorem abortDraftSave_keeps (saveKey fingerprint claimToken : String) (now : ℤ) :
    (abortDraftSave saveKey fingerprint claimToken now t).2.emails = t.emails ∧
      (abortDraftSave saveKey fingerprint claimToken now t).2.creations = t.creations := by
  rw [abortDraftSave]
  split <;> exact ⟨rfl, rfl⟩

theorem promoteExpiredClaims_keeps (now : ℤ) :
    (promoteExpiredClaims now t).2.emails = t.emails ∧
      (promoteExpiredClaims now t).2.creations = t.creations := by
  rw [promoteExpiredClaims]
  generalize expiredOperations now t.saves = operations
  dsimp only
  induction operations generalizing t with
  | nil => exact ⟨rfl, rfl⟩
  | cons operation operations ih =>
      rw [List.foldl_cons]
      exact ih (t := promoteExpiredClaim now t operation)

/-- The rows of a draft that is updated. -/
theorem email_updateDraft (input : UpsertInput) (existing : EmailRow) (now : ℤ)
    (hid : id ≠ input.id) : (updateDraft input existing now t).email id = t.email id := by
  have hkey : ∀ row : EmailRow, ({ row with
      date := now, content := input.content, draftVersion := existing.draftVersion + 1 } :
        EmailRow).id = row.id := fun _ => rfl
  rw [DraftTables.email, updateDraft, markDraftCreateOperation, lookup_updateWhere hkey]
  cases h : lookup EmailRow.id id t.emails with
  | none =>
      rw [DraftTables.email, h]
      rfl
  | some row =>
      have hne : row.id ≠ input.id := (lookup_eq_some h).2 ▸ hid
      rw [DraftTables.email, h]
      simp [hne]

theorem insertDraft_eq_ok {input : UpsertInput} {now : ℤ} (h : insertDraft input now t = .ok t') :
    t'.emails = t.emails ++ [⟨input.id, draftFolder, 1, now, input.content, input.createKey,
      input.createFingerprint⟩] ∧
    t'.creations = match input.creationKeys with
      | some (createKey, fingerprint) =>
          t.creations ++ [⟨createKey, fingerprint, input.id, 1, .active, now⟩]
      | none => t.creations := by
  rw [insertDraft] at h
  obtain ⟨_, -, h⟩ := bind_eq_ok.mp h
  obtain rfl := pure_eq_ok.mp h
  exact ⟨rfl, rfl⟩

theorem email_congr (h : u.emails = u'.emails) (id : String) : u.email id = u'.email id := by
  rw [DraftTables.email, DraftTables.email, h]

namespace Written

variable {input : UpsertInput} {now : ℤ} {draftVersion : ℕ}

/-- A write leaves every other message alone. -/
theorem email_of_ne (h : Written input now t draftVersion t') (hid : id ≠ input.id) :
    t'.email id = t.email id := by
  obtain ⟨u, hplaced, hemails, -⟩ := h.placed
  rw [email_congr hemails]
  generalize t.email input.id = existing at hplaced
  cases existing with
  | some existing =>
      obtain rfl := pure_eq_ok.mp hplaced
      exact email_updateDraft input existing now hid
  | none =>
      have hother : lookup EmailRow.id id [(⟨input.id, draftFolder, 1, now, input.content,
          input.createKey, input.createFingerprint⟩ : EmailRow)] = none :=
        lookup_eq_none fun row hrow => by
          rw [List.mem_singleton.mp hrow]
          exact hid.symm
      rw [DraftTables.email, (insertDraft_eq_ok hplaced).1, lookup_append, hother,
        Option.or_none]
      rfl

theorem ids (h : Written input now t draftVersion t') (hids : (t.emails.map EmailRow.id).Nodup) :
    (t'.emails.map EmailRow.id).Nodup := by
  obtain ⟨u, hplaced, hemails, -⟩ := h.placed
  rw [hemails]
  cases hexisting : t.email input.id with
  | some existing =>
      rw [hexisting] at hplaced
      obtain rfl := pure_eq_ok.mp hplaced
      rw [updateDraft, markDraftCreateOperation, map_key_updateWhere]
      · exact hids
      · exact fun _ => rfl
  | none =>
      rw [hexisting] at hplaced
      rw [(insertDraft_eq_ok hplaced).1, List.map_append, List.map_singleton]
      refine List.nodup_append.mpr ⟨hids, List.nodup_singleton _, fun a ha b hb => ?_⟩
      obtain ⟨row, hrow, rfl⟩ := List.mem_map.mp ha
      rw [List.mem_singleton.mp hb]
      exact by simpa using List.find?_eq_none.mp hexisting row hrow

end Written

/-! ### Removals -/

theorem removeDraft_emails (id : String) (expectedVersion : ℕ) (state : DraftCreateState)
    (now : ℤ) : (removeDraft id expectedVersion state now t).emails =
      deleteWhere (fun row => decide (row.id = id) &&
        decide (row.draftVersion = expectedVersion)) t.emails := by
  obtain ⟨_, heq⟩ := removeDraft_eq (t := t) id expectedVersion state now
  rw [heq, deleteEmail]

/-- A removal is refused and changes nothing, or the draft was there at the version. -/
theorem removeDraftVersion_cases (id : String) (expectedVersion : ℕ) (state : DraftCreateState)
    (now : ℤ) :
    (∃ refusal, removeDraftVersion id expectedVersion state now t = (.error refusal, t)) ∨
      (t.versionOf id = some expectedVersion ∧
        (∀ email ∈ t.email id, email.folderId = draftFolder) ∧
        removeDraftVersion id expectedVersion state now t =
          (.ok (t.attachmentsOf id), removeDraft id expectedVersion state now t)) := by
  rw [removeDraftVersion]
  cases hemail : t.email id with
  | none => exact .inl ⟨.missing, rfl⟩
  | some email =>
      simp only [refuseRemoval]
      by_cases hfolder : email.folderId = draftFolder
      · by_cases hversion : email.draftVersion = expectedVersion
        · refine .inr ⟨?_, ?_, ?_⟩
          · rw [DraftTables.versionOf, hemail, Option.map_some, hversion]
          · rintro _ ⟨rfl⟩
            exact hfolder
          · simp [hfolder, hversion]
        · exact .inl ⟨.versionChanged email.draftVersion, by simp [hfolder, hversion]⟩
      · exact .inl ⟨.notDraft, by simp [hfolder]⟩

/-- The draft is gone. -/
theorem versionOf_removeDraft (hids : (t.emails.map EmailRow.id).Nodup) {expectedVersion : ℕ}
    (hversion : t.versionOf id = some expectedVersion) (state : DraftCreateState) (now : ℤ) :
    (removeDraft id expectedVersion state now t).versionOf id = none := by
  rw [DraftTables.versionOf, DraftTables.email, removeDraft_emails,
    lookup_deleteWhere hids]
  rw [DraftTables.versionOf, DraftTables.email] at hversion
  obtain ⟨email, hemail, rfl⟩ := Option.map_eq_some_iff.mp hversion
  obtain ⟨-, rfl⟩ := lookup_eq_some hemail
  rw [hemail]
  simp [Option.filter]

theorem email_removeDraft_of_ne (hids : (t.emails.map EmailRow.id).Nodup) {id' : String}
    (hid : id' ≠ id) (expectedVersion : ℕ) (state : DraftCreateState) (now : ℤ) :
    (removeDraft id expectedVersion state now t).email id' = t.email id' := by
  rw [DraftTables.email, removeDraft_emails, lookup_deleteWhere hids]
  cases hemail : lookup EmailRow.id id' t.emails with
  | none =>
      rw [DraftTables.email, hemail]
      rfl
  | some email =>
      have hne : email.id ≠ id := (lookup_eq_some hemail).2 ▸ hid
      rw [DraftTables.email, hemail]
      simp [Option.filter, hne]

/-! ### The version of a draft -/

/-- A write of a draft that went through. -/
structure DraftWrite where
  draftId : String
  expectedVersion : Option ℕ
  version : ℕ
  claim : Option SaveClaim
deriving DecidableEq

/-- The write that a call makes. -/
def draftWrite (t : DraftTables) : DraftCall → Option DraftWrite
  | .upsert input attachments now =>
      match upsertDraft input attachments now t with
      | .ok (.saved draftId version _ _, _) =>
          some ⟨draftId, input.expectedVersion, version, input.saveClaim⟩
      | _ => none
  | _ => none

/-- The call removes the draft. -/
def removesDraft (t : DraftTables) (id : String) : DraftCall → Bool
  | .consume id' expectedVersion now =>
      decide (id' = id) && (consumeDraftVersion id' expectedVersion now t).1.isOk
  | .discard id' expectedVersion now =>
      decide (id' = id) && (discardDraft id' expectedVersion now t).1.isOk
  | _ => false

/-- What a call does to the version of a draft. -/
inductive VersionChange (t : DraftTables) (call : DraftCall) (id : String) :
    Option ℕ → Option ℕ → Prop
  | kept (version) : VersionChange t call id version version
  | written {write : DraftWrite} (hwrite : draftWrite t call = some write)
      (hid : write.draftId = id) (hversion : write.version = write.expectedVersion.getD 0 + 1) :
      VersionChange t call id write.expectedVersion (some write.version)
  | removed {version : ℕ} (hremoves : removesDraft t id call = true) :
      VersionChange t call id (some version) none

/-- A write that is told of went through. -/
theorem draftWrite_cases {write : DraftWrite} (h : draftWrite t call = some write) :
    ∃ input attachments now, call = .upsert input attachments now ∧
      write = ⟨input.id, input.expectedVersion, write.version, input.saveClaim⟩ ∧
      Written input now t write.version (draftStep t call) := by
  cases call with
  | upsert input attachments now =>
      simp only [draftWrite] at h
      split at h
      · rename_i draftId version replaced draft t' hok
        cases h
        have hstep : draftStep t (.upsert input attachments now) = t' := by
          rw [draftStep, hok]
        rcases upsertDraft_cases hok with ⟨hrefused, -⟩ | ⟨_, _, _, hsaved, hwritten⟩
        · exact absurd rfl (hrefused _ _ _ _)
        · obtain ⟨rfl, rfl, rfl, rfl⟩ := UpsertDraftResult.saved.inj hsaved
          exact ⟨input, attachments, now, rfl, rfl, hstep ▸ hwritten⟩
      · cases h
  | _ => cases h

theorem versionChange_upsert (input : UpsertInput) (attachments : List AttachmentRow) (now : ℤ)
    (id : String) :
    VersionChange t (.upsert input attachments now) id (t.versionOf id)
      ((draftStep t (.upsert input attachments now)).versionOf id) := by
  cases h : upsertDraft input attachments now t with
  | error =>
      rw [draftStep, h]
      exact .kept _
  | ok result =>
      obtain ⟨result, t'⟩ := result
      rw [draftStep, h]
      dsimp only
      rcases upsertDraft_cases h with ⟨-, rfl⟩ | ⟨draftVersion, replaced, draft, rfl, hwritten⟩
      · exact .kept _
      · by_cases hid : id = input.id
        · subst hid
          have hwrite : draftWrite t (.upsert input attachments now) =
              some ⟨input.id, input.expectedVersion, draftVersion, input.saveClaim⟩ := by
            simp only [draftWrite, h]
          rw [hwritten.stored, hwritten.after]
          exact .written hwrite rfl hwritten.version
        · rw [DraftTables.versionOf, DraftTables.versionOf, hwritten.email_of_ne hid]
          exact .kept _

theorem versionChange_remove (hids : (t.emails.map EmailRow.id).Nodup) (id' : String)
    (expectedVersion : ℕ) (state : DraftCreateState) (now : ℤ)
    (hremoves : (removeDraftVersion id' expectedVersion state now t).1.isOk = true →
      removesDraft t id' call = true) (id : String) :
    VersionChange t call id (t.versionOf id)
      ((removeDraftVersion id' expectedVersion state now t).2.versionOf id) := by
  rcases removeDraftVersion_cases id' expectedVersion state now with
    ⟨refusal, hrefused⟩ | ⟨hversion, -, hremoved⟩
  · rw [hrefused]
    exact .kept _
  · rw [hremoved] at hremoves ⊢
    by_cases hid : id = id'
    · subst hid
      rw [hversion, versionOf_removeDraft hids hversion]
      exact .removed (hremoves rfl)
    · rw [DraftTables.versionOf, DraftTables.versionOf, email_removeDraft_of_ne hids hid]
      exact .kept _

theorem versionOf_congr (h : u.emails = u'.emails) (id : String) :
    u.versionOf id = u'.versionOf id := by
  rw [DraftTables.versionOf, DraftTables.versionOf, email_congr h]

/-- **What a step does to the version of a draft.** -/
theorem versionChange_step (hids : (t.emails.map EmailRow.id).Nodup) (call : DraftCall)
    (id : String) : VersionChange t call id (t.versionOf id) ((draftStep t call).versionOf id) := by
  have hkept : ∀ u : DraftTables, u.emails = t.emails →
      VersionChange t call id (t.versionOf id) (u.versionOf id) := fun u hu =>
    versionOf_congr hu id ▸ .kept _
  cases call with
  | claim input now => exact hkept _ (claimDraftSave_keeps input now).1
  | record saveKey fingerprint claimToken destinationKeys now =>
      exact hkept _ (recordDraftSavePromotion_keeps saveKey fingerprint claimToken
        destinationKeys now).1
  | abort saveKey fingerprint claimToken now =>
      exact hkept _ (abortDraftSave_keeps saveKey fingerprint claimToken now).1
  | upsert input attachments now => exact versionChange_upsert input attachments now id
  | expire now => exact hkept _ (promoteExpiredClaims_keeps now).1
  | consume id' expectedVersion now =>
      refine versionChange_remove hids id' expectedVersion .consumed now (fun hok => ?_) id
      simp only [removesDraft, decide_true, Bool.true_and]
      exact hok
  | discard id' expectedVersion now =>
      refine versionChange_remove hids id' expectedVersion .discarded now (fun hok => ?_) id
      simp only [removesDraft, decide_true, Bool.true_and]
      exact hok

/-! ### Steps keep the invariant -/

theorem ids_step (hids : (t.emails.map EmailRow.id).Nodup) (call : DraftCall) :
    ((draftStep t call).emails.map EmailRow.id).Nodup := by
  have hkept : ∀ u : DraftTables, u.emails = t.emails → (u.emails.map EmailRow.id).Nodup :=
    fun u hu => hu ▸ hids
  have hremoved : ∀ id expectedVersion state now,
      ((removeDraftVersion id expectedVersion state now t).2.emails.map EmailRow.id).Nodup := by
    intro id expectedVersion state now
    rcases removeDraftVersion_cases (t := t) id expectedVersion state now with
      ⟨refusal, hrefused⟩ | ⟨-, -, hremoved⟩
    · rw [hrefused]
      exact hids
    · rw [hremoved, removeDraft_emails]
      exact nodup_deleteWhere hids
  cases call with
  | claim input now => exact hkept _ (claimDraftSave_keeps input now).1
  | record saveKey fingerprint claimToken destinationKeys now =>
      exact hkept _ (recordDraftSavePromotion_keeps saveKey fingerprint claimToken
        destinationKeys now).1
  | abort saveKey fingerprint claimToken now =>
      exact hkept _ (abortDraftSave_keeps saveKey fingerprint claimToken now).1
  | upsert input attachments now =>
      rw [draftStep]
      split
      · rename_i result t' h
        rcases upsertDraft_cases h with ⟨-, rfl⟩ | ⟨_, _, _, -, hwritten⟩
        · exact hids
        · exact hwritten.ids hids
      · exact hids
  | expire now => exact hkept _ (promoteExpiredClaims_keeps now).1
  | consume id expectedVersion now => exact hremoved id expectedVersion .consumed now
  | discard id expectedVersion now => exact hremoved id expectedVersion .discarded now

theorem keys_commitSave (hkeys : (t.saves.map saveKey).Nodup)
    (claim : Option SaveClaim) (draftVersion : ℕ) (now : ℤ) :
    ((commitSave claim draftVersion now t).saves.map saveKey).Nodup := by
  cases claim with
  | none => exact hkeys
  | some claim =>
      rw [commitSave, map_key_updateWhere]
      · exact hkeys
      · exact fun _ => rfl

theorem keys_updateWhere {p : DraftSaveOperation → Bool}
    {f : DraftSaveOperation → DraftSaveOperation} (hf : ∀ row, (f row).saveKey = row.saveKey)
    {saves : List DraftSaveOperation} (hkeys : (saves.map saveKey).Nodup) :
    ((updateWhere p f saves).map saveKey).Nodup := by
  rw [map_key_updateWhere hf]
  exact hkeys

theorem keys_claim (hkeys : (t.saves.map saveKey).Nodup) (input : ClaimInput)
    (now : ℤ) :
    ((claimDraftSave input now t).2.saves.map saveKey).Nodup := by
  have hpruned : ((pruneRetired now t).saves.map saveKey).Nodup :=
    nodup_deleteWhere hkeys
  have hended : ((endExpiredClaims input.draftId input.expectedVersion now
      (pruneRetired now t)).saves.map saveKey).Nodup := by
    refine keys_updateWhere ?_ hpruned
    exact fun _ => rfl
  have h := claimDraftSave_cases (t := t) input now
  generalize claimDraftSave input now t = result at h
  cases h with
  | answered => exact hpruned
  | refused => exact hended
  | granted =>
      dsimp only [insertClaim]
      refine nodup_upsert ?_ hended
      exact fun _ => rfl

theorem keys_promoteExpired (hkeys : (t.saves.map saveKey).Nodup) (now : ℤ)
    (operations : List DraftSaveOperation) :
    ((operations.foldl (promoteExpiredClaim now) t).saves.map
      saveKey).Nodup := by
  induction operations generalizing t with
  | nil => exact hkeys
  | cons operation operations ih =>
      rw [List.foldl_cons]
      refine ih (keys_updateWhere ?_ hkeys)
      exact fun _ => rfl

theorem keys_step (hkeys : (t.saves.map saveKey).Nodup) (call : DraftCall) :
    ((draftStep t call).saves.map saveKey).Nodup := by
  have hremoved : ∀ id expectedVersion state now,
      ((removeDraftVersion id expectedVersion state now t).2.saves.map
        saveKey).Nodup := by
    intro id expectedVersion state now
    rcases removeDraftVersion_cases (t := t) id expectedVersion state now with
      ⟨refusal, hrefused⟩ | ⟨-, -, hremoved⟩
    · rw [hrefused]
      exact hkeys
    · obtain ⟨_, heq⟩ := removeDraft_eq (t := t) id expectedVersion state now
      rw [hremoved, heq, deleteEmail]
      refine keys_updateWhere ?_ hkeys
      exact fun _ => rfl
  cases call with
  | claim input now => exact keys_claim hkeys input now
  | record saveKey fingerprint claimToken destinationKeys now =>
      rw [draftStep, recordDraftSavePromotion]
      split
      · exact hkeys
      · refine keys_updateWhere ?_ hkeys
        exact fun _ => rfl
  | abort saveKey fingerprint claimToken now =>
      rw [draftStep, abortDraftSave]
      split
      · exact hkeys
      · refine keys_updateWhere ?_ hkeys
        exact fun _ => rfl
  | upsert input attachments now =>
      rw [draftStep]
      split
      · rename_i result t' h
        rcases upsertDraft_cases h with ⟨-, rfl⟩ | ⟨_, _, _, -, hwritten⟩
        · exact hkeys
        · rw [hwritten.saves]
          exact keys_commitSave hkeys _ _ now
      · exact hkeys
  | expire now =>
      exact keys_promoteExpired hkeys now _
  | consume id expectedVersion now => exact hremoved id expectedVersion .consumed now
  | discard id expectedVersion now => exact hremoved id expectedVersion .discarded now

/-- A row in the table is the row of its key. -/
theorem save_iff (hkeys : (t.saves.map saveKey).Nodup) {k : String} :
    t.save k = some row ↔ row ∈ t.saves ∧ row.saveKey = k := by
  constructor
  · exact lookup_eq_some
  · rintro ⟨hrow, rfl⟩
    exact lookup_of_mem hkeys hrow

/-- A row that is claimed was claimed before, for the same version, or is the one that was just
granted. -/
theorem RowChange.of_claimed {old : Option DraftSaveOperation} (h : RowChange t call old (some row))
    (hclaimed : row.state = .claimed) :
    (∃ row₀, old = some row₀ ∧ row₀.state = .claimed ∧ row₀.saveKey = row.saveKey ∧
      row₀.draftId = row.draftId ∧ row₀.expectedVersion = row.expectedVersion ∧
      row₀.claimToken = row.claimToken) ∨
    ∃ input now stale, call = .claim input now ∧
      (claimDraftSave input now t).1 = .claimed stale ∧ row = input.row now := by
  cases h with
  | kept => exact .inl ⟨row, rfl, hclaimed, rfl, rfl, rfl, rfl⟩
  | granted hcall hgranted =>
      obtain ⟨stale, hgranted⟩ := hgranted
      exact .inr ⟨_, _, stale, hcall, hgranted, rfl⟩
  | recorded keys now hold => exact .inl ⟨_, rfl, hold, rfl, rfl, rfl, rfl⟩
  | ended => cases hclaimed
  | refreshed now hover => exact absurd hclaimed hover
  | committed => cases hclaimed

/-- **A claim that is granted is alone.** -/
theorem alone_of_granted {input : ClaimInput} {now : ℤ} {stale : List StalePromotion}
    (hgranted : (claimDraftSave input now t).1 = .claimed stale)
    (hrow : row ∈ (claimDraftSave input now t).2.saves)
    (hclaims : row.claims input.draftId input.expectedVersion = true) :
    row.saveKey = input.saveKey := by
  have h := claimDraftSave_cases (t := t) input now
  generalize claimDraftSave input now t = result at h hgranted hrow
  cases h with
  | answered hresult => exact absurd hgranted (hresult stale)
  | refused hresult => exact absurd hgranted (hresult stale)
  | granted hsame halone hversion =>
      dsimp only [insertClaim] at hrow
      rcases mem_upsert hrow with rfl | hold
      · rfl
      · rw [halone row hold] at hclaims
        cases hclaims

theorem alone_step (hinv : DraftInv t) (call : DraftCall) {row' : DraftSaveOperation}
    (hrow : row ∈ (draftStep t call).saves) (hrow' : row' ∈ (draftStep t call).saves)
    (hclaimed : row.state = .claimed) (hclaimed' : row'.state = .claimed)
    (hdraft : row.draftId = row'.draftId) (hversion : row.expectedVersion = row'.expectedVersion) :
    row = row' := by
  have hkeys := keys_step hinv.keys call
  have hsave := (save_iff hkeys).mpr ⟨hrow, rfl⟩
  have hsave' := (save_iff hkeys).mpr ⟨hrow', rfl⟩
  have hchange := rowChange_step hinv.keys call row.saveKey
  have hchange' := rowChange_step hinv.keys call row'.saveKey
  rw [hsave] at hchange
  rw [hsave'] at hchange'
  refine eq_of_key_eq hkeys hrow hrow' ?_
  -- The claim that is granted is alone; two that were there before are one by the invariant.
  have hgrant : ∀ {a b : DraftSaveOperation} {input : ClaimInput} {now : ℤ}
      {stale : List StalePromotion}, a ∈ (draftStep t call).saves → call = .claim input now →
      (claimDraftSave input now t).1 = .claimed stale → b = input.row now → a.state = .claimed →
      a.draftId = b.draftId → a.expectedVersion = b.expectedVersion → a.saveKey = b.saveKey := by
    rintro a b input now stale ha rfl hgranted rfl hstate hdraft hversion
    exact alone_of_granted hgranted ha (claims_iff.mpr ⟨hdraft, hversion, hstate⟩)
  rcases hchange.of_claimed hclaimed with
    ⟨old, hold, hstate, hkey, hd, hv, -⟩ | ⟨input, now, stale, hcall, hgranted, hnew⟩
  · rcases hchange'.of_claimed hclaimed' with
      ⟨old', hold', hstate', hkey', hd', hv', -⟩ | ⟨input, now, stale, hcall, hgranted, hnew⟩
    · have hmem := ((save_iff hinv.keys).mp hold).1
      have hmem' := ((save_iff hinv.keys).mp hold').1
      have heq := hinv.alone old hmem old' hmem' hstate hstate'
        (hd.trans (hdraft.trans hd'.symm)) (hv.trans (hversion.trans hv'.symm))
      rw [← hkey, ← hkey', heq]
    · exact hgrant hrow hcall hgranted hnew hclaimed hdraft hversion
  · exact (hgrant hrow' hcall hgranted hnew hclaimed' hdraft.symm hversion.symm).symm

/-- The claim of a write stands for the version that it expects. -/
theorem claimStands_of_refuseClaim {input : UpsertInput} {claim : SaveClaim}
    (h : refuseClaim input t = none) (hclaim : input.saveClaim = some claim) :
    ∃ row, t.save claim.saveKey = some row ∧
      row.claimedBy claim.saveKey claim.fingerprint claim.claimToken = true ∧
      row.draftId = input.id ∧ row.expectedVersion = input.expectedVersion.getD 0 := by
  simp only [refuseClaim, hclaim] at h
  have hstands : claimStands input claim t = true := by
    cases hstands : claimStands input claim t with
    | true => rfl
    | false => simp [hstands] at h
  rw [claimStands] at hstands
  cases hrow : t.save claim.saveKey with
  | none =>
      rw [hrow] at hstands
      cases hstands
  | some row =>
      rw [hrow] at hstands
      simp only [Option.any_some, Bool.and_eq_true, decide_eq_true_eq] at hstands
      obtain ⟨⟨⟨⟨hfingerprint, htoken⟩, hdraft⟩, hversion⟩, hstate⟩ := hstands
      exact ⟨row, rfl, claimedBy_iff.mpr ⟨(lookup_eq_some hrow).2, hfingerprint, htoken,
        hstate⟩, hdraft, hversion⟩

theorem commits_step (hinv : DraftInv t) (call : DraftCall) (hrow : row ∈ (draftStep t call).saves)
    (hcommitted : row.state = .committed) :
    row.committedVersion = some (row.expectedVersion + 1) := by
  have hchange := rowChange_step hinv.keys call row.saveKey
  rw [(save_iff (keys_step hinv.keys call)).mpr ⟨hrow, rfl⟩] at hchange
  generalize hold : t.save row.saveKey = old at hchange
  have hbefore : ∀ row₀, old = some row₀ → row₀.state = .committed →
      row₀.committedVersion = some (row₀.expectedVersion + 1) := fun row₀ h hstate =>
    hinv.commits row₀ ((save_iff hinv.keys).mp (hold.trans h)).1 hstate
  cases hchange with
  | kept => exact hbefore row rfl hcommitted
  | granted => cases hcommitted
  | recorded keys now hclaimed => exact absurd (hclaimed.symm.trans hcommitted) (by simp)
  | ended => cases hcommitted
  | @refreshed row₀ => exact hbefore row₀ rfl hcommitted
  | @committed row₀ input attachments now claim draftVersion replaced draft t' hcall hclaim hsaved
      hclaimed =>
      rcases upsertDraft_cases hsaved with ⟨hrefused, -⟩ | ⟨_, _, _, hresult, hwritten⟩
      · exact absurd rfl (hrefused _ _ _ _)
      · obtain ⟨-, rfl, -, -⟩ := UpsertDraftResult.saved.inj hresult
        obtain ⟨row', hsave, hclaimed', -, hversion⟩ :=
          claimStands_of_refuseClaim hwritten.claim hclaim
        have hkey : row₀.saveKey = claim.saveKey := (claimedBy_iff.mp hclaimed).1
        have hsame : t.save row₀.saveKey = some row₀ := hold
        rw [hkey, hsave] at hsame
        cases hsame
        rw [hwritten.version, hversion]

/-- **Every step keeps the invariant.** -/
theorem draftStep_inv (hinv : DraftInv t) (call : DraftCall) : DraftInv (draftStep t call) where
  ids := ids_step hinv.ids call
  keys := keys_step hinv.keys call
  alone _ hrow _ hrow' := alone_step hinv call hrow hrow'
  commits _ hrow := commits_step hinv call hrow

end MailPortal.Drafts
