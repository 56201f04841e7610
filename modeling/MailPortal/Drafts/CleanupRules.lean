import MailPortal.Drafts.CleanupPass
import MailPortal.Drafts.NoLostUpdate

/-!
# Claims that End and the Intents that they Leave

A call ends some claims, and each of them that has recorded keys leaves an intent for them. Every
other claim stands after the call, or was committed by it.

Main results:

* `ending_step` : the claims that a call ends, with their intents, and those that stay.
* `attachments_step` : the attachments after a call.
-/

namespace MailPortal.Drafts

open Failure Table

variable {t t' : DraftTables}
variable {intents : List DraftSaveCleanupIntent} {row : DraftSaveOperation} {now : ℤ}
  {input : ClaimInput} {claimToken : String}
variable {operation : DraftSaveOperation}

/-! ### Plans -/

/-- The keys of an intent. -/
def plan (token : String) (intents : List DraftSaveCleanupIntent) : Option (List String) :=
  (lookup DraftSaveCleanupIntent.claimToken token intents).map
    DraftSaveCleanupIntent.destinationKeys

theorem decode_eq_nil {keys : List String} :
    decodeDestinationPlan keys = some [] ↔ keys = [] := by
  rw [decodeDestinationPlan]
  constructor
  · intro h
    split at h
    · exact Option.some.inj h
    · cases h
  · rintro rfl
    simp

theorem decode_eq_some {keys keys' : List String} (h : decodeDestinationPlan keys = some keys') :
    keys' = keys := by
  rw [decodeDestinationPlan] at h
  split at h
  · exact (Option.some.inj h).symm
  · cases h

theorem plan_upsertIntent (onConflict : IntentDraft) (owner draftId : String) (keys : List String)
    (nextAttemptAt now : ℤ) (intents : List DraftSaveCleanupIntent) (token : String) :
    plan token (upsertIntent onConflict owner draftId keys nextAttemptAt now intents) =
      if owner = token then some keys else plan token intents := by
  rw [plan, upsertIntent, lookup_upsert]
  · split <;> rfl
  · exact fun _ => rfl

theorem plan_promoteToCleanup (onConflict : IntentDraft) (owner draftId : String)
    (keys : List String) (nextAttemptAt now : ℤ) (intents : List DraftSaveCleanupIntent)
    (token : String) :
    plan token (promoteToCleanup onConflict owner draftId keys nextAttemptAt now intents) =
      if owner = token ∧ keys ≠ [] then some keys else plan token intents := by
  rw [promoteToCleanup]
  by_cases hkeys : keys = []
  · rw [if_pos (decode_eq_nil.mpr hkeys), if_neg fun h => h.2 hkeys]
  · rw [if_neg (fun h => hkeys (decode_eq_nil.mp h)), plan_upsertIntent]
    simp [hkeys]

theorem nodup_promoteToCleanup (onConflict : IntentDraft) (owner draftId : String)
    (keys : List String) (nextAttemptAt now : ℤ)
    (hnd : (intents.map DraftSaveCleanupIntent.claimToken).Nodup) :
    ((promoteToCleanup onConflict owner draftId keys nextAttemptAt now intents).map
      DraftSaveCleanupIntent.claimToken).Nodup := by
  rw [promoteToCleanup]
  split
  · exact hnd
  · rw [upsertIntent]
    refine nodup_upsert ?_ hnd
    exact fun _ => rfl

/-! ### What a call does to the intents -/

/-- The intents after some claims were ended, each in a way of its own. -/
structure EndsClaims (intents intents' : List DraftSaveCleanupIntent)
    (ended : List DraftSaveOperation) : Prop where
  keys : (intents.map DraftSaveCleanupIntent.claimToken).Nodup →
    (intents'.map DraftSaveCleanupIntent.claimToken).Nodup
  kept : ∀ token, (∀ row ∈ ended, row.promotionOwner = token → row.destinationKeys = []) →
    plan token intents' = plan token intents
  covered : ∀ token keys, keys ≠ [] → plan token intents = none →
    (∃ row ∈ ended, row.promotionOwner = token ∧ row.destinationKeys = keys) →
    (∀ row ∈ ended, row.promotionOwner = token → row.destinationKeys = keys) →
    plan token intents' = some keys

theorem endsClaims_nil (intents : List DraftSaveCleanupIntent) : EndsClaims intents intents [] where
  keys := id
  kept _ _ := rfl
  covered := by
    rintro _ _ - - ⟨row, hrow, -⟩
    cases hrow

/-- Claims that are ended one after the other. -/
theorem endsClaims_foldl {end_ : List DraftSaveCleanupIntent → DraftSaveOperation →
      List DraftSaveCleanupIntent}
    (hend : ∀ intents row, ∃ onConflict draftId nextAttemptAt now, end_ intents row =
      promoteToCleanup onConflict row.promotionOwner draftId row.destinationKeys nextAttemptAt now
        intents)
    (ended : List DraftSaveOperation) (intents : List DraftSaveCleanupIntent) :
    EndsClaims intents (ended.foldl end_ intents) ended := by
  have hplan : ∀ intents row token, plan token (end_ intents row) =
      if row.promotionOwner = token ∧ row.destinationKeys ≠ [] then some row.destinationKeys
      else plan token intents := by
    intro intents row token
    obtain ⟨onConflict, draftId, nextAttemptAt, now, heq⟩ := hend intents row
    rw [heq, plan_promoteToCleanup]
  have hkept : ∀ (ended : List DraftSaveOperation) (intents : List DraftSaveCleanupIntent) token,
      (∀ row ∈ ended, row.promotionOwner = token → row.destinationKeys = []) →
        plan token (ended.foldl end_ intents) = plan token intents := by
    intro ended
    induction ended with
    | nil => exact fun _ _ _ => rfl
    | cons row ended ih =>
        intro intents token h
        rw [List.foldl_cons, ih _ token fun row' hrow' => h row' (List.mem_cons_of_mem row hrow'),
          hplan, if_neg fun ⟨howner, hkeys⟩ => hkeys (h row List.mem_cons_self howner)]
  have hsame : ∀ (ended : List DraftSaveOperation) (intents : List DraftSaveCleanupIntent) token
      keys, keys ≠ [] → (∀ row ∈ ended, row.promotionOwner = token → row.destinationKeys = keys) →
        plan token intents = some keys → plan token (ended.foldl end_ intents) = some keys := by
    intro ended
    induction ended with
    | nil => exact fun _ _ _ _ _ h => h
    | cons row ended ih =>
        intro intents token keys hne hall hold
        rw [List.foldl_cons]
        refine ih _ token keys hne (fun row' hrow' => hall row' (List.mem_cons_of_mem row hrow')) ?_
        rw [hplan]
        split
        · rename_i howner
          rw [hall row List.mem_cons_self howner.1]
        · exact hold
  constructor
  · intro hnd
    induction ended generalizing intents with
    | nil => exact hnd
    | cons row ended ih =>
        rw [List.foldl_cons]
        refine ih _ ?_
        obtain ⟨onConflict, draftId, nextAttemptAt, now, heq⟩ := hend intents row
        rw [heq]
        exact nodup_promoteToCleanup _ _ _ _ _ _ hnd
  · exact hkept ended intents
  · rintro token keys hne - ⟨row, hrow, howner, hkeys⟩ hall
    induction ended generalizing intents with
    | nil => cases hrow
    | cons first ended ih =>
        rw [List.foldl_cons]
        have hall' : ∀ row' ∈ ended, row'.promotionOwner = token → row'.destinationKeys = keys :=
          fun row' hrow' => hall row' (List.mem_cons_of_mem first hrow')
        rcases List.mem_cons.mp hrow with rfl | hrow
        · refine hsame ended _ token keys hne hall' ?_
          rw [hplan, if_pos ⟨howner, hkeys ▸ hne⟩, hkeys]
        · exact ih _ hrow hall'

theorem promoteExpired_intents (now : ℤ) (operations : List DraftSaveOperation) :
    (operations.foldl (promoteExpiredClaim now) t).intents =
      operations.foldl (fun intents row => promoteToCleanup .set row.promotionOwner row.draftId
        row.destinationKeys now now intents) t.intents := by
  induction operations generalizing t with
  | nil => rfl
  | cons row operations ih =>
      rw [List.foldl_cons, List.foldl_cons, ih]
      rfl

theorem mem_expiredOperations {saves : List DraftSaveOperation}
    (h : row ∈ expiredOperations now saves) : row ∈ saves ∧ row.expired now = true := by
  have hsorted := List.mem_of_mem_take h
  rw [List.mem_insertionSort] at hsorted
  exact List.mem_filter.mp hsorted

/-! ### The claims that a call ends -/

/-- What a call does to the claims: it ends some, and each of the others stands after it, or was
committed by it. -/
structure Ending (t : DraftTables) (call : DraftCall) (ended : List DraftSaveOperation) :
    Prop where
  intents : EndsClaims t.intents (draftStep t call).intents ended
  mem : ∀ row ∈ ended, row ∈ t.saves ∧ row.state = .claimed
  finished : ∀ row ∈ ended, (∀ token ∈ claimTokens call, row.claimToken ≠ some token) →
    ∀ row' ∈ (draftStep t call).saves, row'.saveKey = row.saveKey →
      row'.claimToken = row.claimToken → row'.state ≠ .claimed
  noWrite : ended ≠ [] → draftWrite t call = none
  others : ∀ row ∈ t.saves, row.state = .claimed → row ∈ ended ∨
    (∃ row' ∈ (draftStep t call).saves, row'.state = .claimed ∧ row'.claimToken = row.claimToken ∧
      (row'.destinationKeys = row.destinationKeys ∨
        ∃ token keys, row.claimToken = some token ∧ .recorded token keys ∈ callEvents t call ∧
          row'.destinationKeys = keys)) ∨
    ∃ write claim, draftWrite t call = some write ∧ write.claim = some claim ∧
      row.claimToken = some claim.claimToken

/-- For each of the overdue claims an intent is left. -/
theorem endsClaims_overdue (draftId : String) (expectedVersion : ℕ) (now : ℤ) :
    EndsClaims t.intents
      (endExpiredClaims draftId expectedVersion now (pruneRetired now t)).intents
      (overdueClaims draftId expectedVersion now (pruneRetired now t).saves) :=
  endsClaims_foldl (fun _ _ => ⟨.kept, draftId, now + cleanupInitialDelayMs, now, rfl⟩) _ _

section

variable (hinv : DraftInv t)
include hinv

/-- A claim that is not overdue stands. -/
theorem save_of_not_overdue {draftId : String} {expectedVersion : ℕ} (hrow : row ∈ t.saves)
    (hclaimed : row.state = .claimed)
    (hover : row ∉ overdueClaims draftId expectedVersion now (pruneRetired now t).saves) :
    (endExpiredClaims draftId expectedVersion now (pruneRetired now t)).save row.saveKey =
      some row := by
  rw [save_endExpired _ _ now (keys_pruneRetired hinv now)
    (mem_pruneRetired hinv hrow hclaimed now), if_neg hover]

/-- A claim that is answered by the row of its key ends nothing. -/
theorem ending_answered (hstep : draftStep t (.claim input now) = pruneRetired now t) :
    Ending t (.claim input now) [] := by
  constructor
  · rw [hstep]
    exact endsClaims_nil _
  · simp
  · simp
  · exact fun h => absurd rfl h
  · intro row hrow hclaimed
    rw [hstep]
    exact .inr (.inl ⟨row, mem_pruneRetired hinv hrow hclaimed now, hclaimed, rfl, .inl rfl⟩)

/-- A claim that is refused for its version ends the overdue claims. -/
theorem ending_refused (hstep : draftStep t (.claim input now) =
      endExpiredClaims input.draftId input.expectedVersion now (pruneRetired now t)) :
    Ending t (.claim input now)
      (overdueClaims input.draftId input.expectedVersion now (pruneRetired now t).saves) := by
  constructor
  · rw [hstep]
    exact endsClaims_overdue ..
  · exact fun row hrow => of_mem_overdue hrow
  · intro row hrow _ row' hrow' hkey _ hclaimed
    have hsave' := (save_iff (keys_step hinv.keys (.claim input now))).mpr ⟨hrow', rfl⟩
    rw [hstep, hkey, save_of_overdue hinv hrow] at hsave'
    rw [← Option.some.inj hsave'] at hclaimed
    cases hclaimed
  · exact fun _ => rfl
  · intro row hrow hclaimed
    by_cases hover : row ∈ overdueClaims input.draftId input.expectedVersion now
        (pruneRetired now t).saves
    · exact .inl hover
    · have hsave := save_of_not_overdue hinv hrow hclaimed hover
      rw [hstep]
      exact .inr (.inl ⟨row, (lookup_eq_some hsave).1, hclaimed, rfl, .inl rfl⟩)

/-- A claim that is granted ends the overdue claims, and no other claim is of its version. -/
theorem ending_granted (hsame : ∀ old ∈ (pruneRetired now t).save input.saveKey,
      input.conflicts old = false ∧ old.state ≠ .committed) (halone : ∀ row ∈
      (endExpiredClaims input.draftId input.expectedVersion now (pruneRetired now t)).saves,
      row.claims input.draftId input.expectedVersion = false)
    (hstep : draftStep t (.claim input now) = insertClaim input now
      (endExpiredClaims input.draftId input.expectedVersion now (pruneRetired now t))) :
    Ending t (.claim input now)
      (overdueClaims input.draftId input.expectedVersion now (pruneRetired now t).saves) := by
  constructor
  · rw [hstep]
    exact endsClaims_overdue ..
  · exact fun row hrow => of_mem_overdue hrow
  · intro row hrow hfresh row' hrow' hkey htoken hclaimed
    have hsave' := (save_iff (keys_step hinv.keys (.claim input now))).mpr ⟨hrow', rfl⟩
    rw [hstep, hkey, save_granted input now hsame] at hsave'
    split at hsave'
    · refine hfresh input.claimToken (by simp [claimTokens]) ?_
      rw [← htoken, ← Option.some.inj hsave']
      rfl
    · rw [save_of_overdue hinv hrow] at hsave'
      rw [← Option.some.inj hsave'] at hclaimed
      cases hclaimed
  · exact fun _ => rfl
  · intro row hrow hclaimed
    by_cases hover : row ∈ overdueClaims input.draftId input.expectedVersion now
        (pruneRetired now t).saves
    · exact .inl hover
    · have hsave := save_of_not_overdue hinv hrow hclaimed hover
      -- The claim that stands is not the one of the key: that one would compete.
      have hkey : input.saveKey ≠ row.saveKey := by
        intro hkey
        have hpruned := mem_pruneRetired hinv hrow hclaimed now
        have hconflicts := (hsame row ((save_iff (keys_pruneRetired hinv now)).mpr
          ⟨hpruned, hkey.symm⟩)).1
        simp only [ClaimInput.conflicts, Bool.or_eq_false_iff, decide_eq_false_iff_not,
          Decidable.not_not] at hconflicts
        have hclaims := claims_iff.mpr ⟨hconflicts.1.2, hconflicts.2, hclaimed⟩
        rw [halone row (lookup_eq_some hsave).1] at hclaims
        cases hclaims
      have hafter := save_granted input now hsame row.saveKey
      rw [if_neg hkey, hsave] at hafter
      rw [hstep]
      exact .inr (.inl ⟨row, (lookup_eq_some hafter).1, hclaimed, rfl, .inl rfl⟩)

theorem ending_claim (input : ClaimInput) (now : ℤ) :
    ∃ ended, Ending t (.claim input now) ended := by
  have hcases := claimDraftSave_cases (t := t) input now
  have hstep : draftStep t (.claim input now) = (claimDraftSave input now t).2 := rfl
  generalize claimDraftSave input now t = result at hcases hstep
  cases hcases with
  | answered => exact ⟨_, ending_answered hinv hstep⟩
  | refused => exact ⟨_, ending_refused hinv hstep⟩
  | granted hsame halone => exact ⟨_, ending_granted hinv hsame halone hstep⟩

end

theorem plan_abortIntent (token : String) (hfree : claimToken = token → plan token intents = none) :
    plan token (abortIntent claimToken operation now intents) =
      if claimToken = token ∧ operation.destinationKeys ≠ [] then some operation.destinationKeys
      else plan token intents := by
  rw [abortIntent]
  split
  · rename_i hinvalid
    have hkeys : operation.destinationKeys ≠ [] := by
      intro hkeys
      rw [decode_eq_nil.mpr hkeys] at hinvalid
      cases hinvalid
    split
    · rename_i hthere
      rw [if_neg]
      rintro ⟨rfl, -⟩
      obtain ⟨intent, hmem, hkey⟩ := List.any_eq_true.mp hthere
      have hnone := Option.map_eq_none_iff.mp (hfree rfl)
      exact absurd hkey (List.find?_eq_none.mp hnone intent hmem)
    · rw [plan_upsertIntent]
      simp [hkeys]
  · exact plan_promoteToCleanup ..

theorem nodup_abortIntent (hnd : (intents.map DraftSaveCleanupIntent.claimToken).Nodup) :
    ((abortIntent claimToken operation now intents).map
      DraftSaveCleanupIntent.claimToken).Nodup := by
  rw [abortIntent]
  split
  · split
    · exact hnd
    · rw [upsertIntent]
      refine nodup_upsert ?_ hnd
      exact fun _ => rfl
  · exact nodup_promoteToCleanup _ _ _ _ _ _ hnd

theorem ending_abort (hinv : DraftInv t)
    (hfree : ∀ row ∈ t.saves, ∀ token, row.state = .claimed → row.claimToken = some token →
      plan token t.intents = none) (saveKey fingerprint claimToken : String) (now : ℤ) :
    ∃ ended, Ending t (.abort saveKey fingerprint claimToken now) ended := by
  have hstep : draftStep t (.abort saveKey fingerprint claimToken now) =
      (abortDraftSave saveKey fingerprint claimToken now t).2 := rfl
  cases hfound : t.saves.find? fun row => row.claimedBy saveKey fingerprint claimToken with
  | none =>
      have hsame : draftStep t (.abort saveKey fingerprint claimToken now) = t := by
        rw [hstep, abortDraftSave, hfound]
      refine ⟨[], ?_⟩
      constructor
      · rw [hsame]
        exact endsClaims_nil _
      · simp
      · simp
      · exact fun h => absurd rfl h
      · rw [hsame]
        exact fun row hrow hclaimed => .inr (.inl ⟨row, hrow, hclaimed, rfl, .inl rfl⟩)
  | some operation =>
      have hrow := List.mem_of_find?_eq_some hfound
      have hclaimedBy : operation.claimedBy saveKey fingerprint claimToken = true := by
        have hsome := List.find?_some hfound
        exact hsome
      obtain ⟨hkey, -, htoken, hstate⟩ := claimedBy_iff.mp hclaimedBy
      have howner : operation.promotionOwner = claimToken := by
        rw [DraftSaveOperation.promotionOwner, htoken, Option.getD_some]
      have hintents : (draftStep t (.abort saveKey fingerprint claimToken now)).intents =
          abortIntent claimToken operation now t.intents := by
        rw [hstep, abortDraftSave, hfound]
      refine ⟨[operation], ?_⟩
      constructor
      · rw [hintents]
        have hplan : ∀ token, plan token (abortIntent claimToken operation now t.intents) = _ :=
          fun token => plan_abortIntent token fun h => h ▸ hfree operation hrow _ hstate htoken
        constructor
        · exact nodup_abortIntent
        · intro token hnone
          rw [hplan, if_neg]
          rintro ⟨rfl, hkeys⟩
          exact hkeys (hnone operation List.mem_cons_self howner)
        · rintro token keys hne - ⟨row, hmem, hrowner, hkeys⟩ -
          obtain rfl := List.mem_singleton.mp hmem
          rw [hplan, if_pos ⟨howner.symm.trans hrowner, hkeys ▸ hne⟩, hkeys]
      · rintro row hmem
        obtain rfl := List.mem_singleton.mp hmem
        exact ⟨hrow, hstate⟩
      · rintro row hmem - row' hrow' hsamekey - hclaimed'
        obtain rfl := List.mem_singleton.mp hmem
        have hsave' := (save_iff (keys_step hinv.keys
          (.abort saveKey fingerprint claimToken now))).mpr ⟨hrow', hsamekey⟩
        rw [hstep, save_abort hrow hclaimedBy hinv.keys] at hsave'
        rw [← Option.some.inj hsave'] at hclaimed'
        cases hclaimed'
      · exact fun _ => rfl
      · intro row hmem hclaimed
        by_cases hends : row.claimedBy saveKey fingerprint claimToken = true
        · refine .inl (List.mem_singleton.mpr ?_)
          exact eq_of_key_eq hinv.keys hmem hrow
            ((claimedBy_iff.mp hends).1.trans hkey.symm)
        · refine .inr (.inl ⟨row, ?_, hclaimed, rfl, .inl rfl⟩)
          rw [hstep, abortDraftSave, hfound]
          exact mem_updateWhere.mpr (.inr ⟨hmem, Bool.eq_false_iff.mpr hends⟩)

/-- A pass leaves the rows of other keys alone. -/
theorem mem_promoteExpired {operations : List DraftSaveOperation} (hrow : row ∈ t.saves)
    (hother : ∀ operation ∈ operations, row.saveKey ≠ operation.saveKey) :
    row ∈ (operations.foldl (promoteExpiredClaim now) t).saves := by
  induction operations generalizing t with
  | nil => exact hrow
  | cons operation operations ih =>
      rw [List.foldl_cons]
      refine ih (mem_updateWhere.mpr (.inr ⟨hrow, ?_⟩))
        fun other hmem => hother other (List.mem_cons_of_mem operation hmem)
      simp [hother operation List.mem_cons_self]

theorem ending_expire (hinv : DraftInv t) (now : ℤ) :
    Ending t (.expire now) (expiredOperations now t.saves) where
  intents := by
    rw [draftStep, promoteExpiredClaims]
    dsimp only
    rw [promoteExpired_intents]
    exact endsClaims_foldl (fun intents row => ⟨.set, row.draftId, now, now, rfl⟩) _ _
  mem row hrow := by
    obtain ⟨hmem, hexpired⟩ := mem_expiredOperations hrow
    exact ⟨hmem, (expired_iff.mp hexpired).1⟩
  finished row hrow _ row' hrow' hkey _ := by
    obtain ⟨hmem, hexpired⟩ := mem_expiredOperations hrow
    have hsave' := (save_iff (keys_step hinv.keys (.expire now))).mpr ⟨hrow', hkey⟩
    exact save_promoteExpired hexpired hrow ((save_iff hinv.keys).mpr ⟨hmem, rfl⟩ ▸ .kept _) row'
      hsave'
  noWrite _ := rfl
  others row hrow hclaimed := by
    by_cases hexpired : row ∈ expiredOperations now t.saves
    · exact .inl hexpired
    · refine .inr (.inl ⟨row, mem_promoteExpired hrow fun operation hoperation hkey => ?_, hclaimed,
        rfl, .inl rfl⟩)
      have hmem := (mem_expiredOperations hoperation).1
      rw [eq_of_key_eq hinv.keys hrow hmem hkey] at hexpired
      exact hexpired hoperation

/-- A record for a claim that stands is told to be done. -/
theorem recorded_of_claimed {saveKey fingerprint : String} {destinationKeys keys : List String}
    (hdecode : decodeDestinationPlan destinationKeys = some keys) (hrow : row ∈ t.saves)
    (hmine : row.claimedBy saveKey fingerprint claimToken = true) :
    (recordDraftSavePromotion saveKey fingerprint claimToken destinationKeys now t).1 = true := by
  rw [recordDraftSavePromotion, hdecode]
  dsimp only
  cases hfound : (updateWhere (fun row => row.claimedBy saveKey fingerprint claimToken)
      (fun row => { row with destinationKeys := keys, updatedAt := now }) t.saves).find?
      fun row => row.claimedBy saveKey fingerprint claimToken with
  | none =>
      refine absurd ?_ (List.find?_eq_none.mp hfound
        { row with destinationKeys := keys, updatedAt := now }
        (mem_updateWhere.mpr (.inl ⟨row, hrow, hmine, rfl⟩)))
      exact hmine
  | some recorded =>
      have hmine' := List.find?_some hfound
      rcases mem_updateWhere.mp (List.mem_of_find?_eq_some hfound) with
        ⟨row₀, -, -, rfl⟩ | ⟨-, hnot⟩
      · simp
      · rw [hnot] at hmine'
        cases hmine'

theorem ending_record (saveKey fingerprint claimToken : String) (destinationKeys : List String)
    (now : ℤ) : Ending t (.record saveKey fingerprint claimToken destinationKeys now) [] := by
  have hevents : callEvents t (.record saveKey fingerprint claimToken destinationKeys now) =
      if (recordDraftSavePromotion saveKey fingerprint claimToken destinationKeys now t).1 then
        [.recorded claimToken destinationKeys] else [] := rfl
  cases hdecode : decodeDestinationPlan destinationKeys with
  | none =>
      have hsame :
          draftStep t (.record saveKey fingerprint claimToken destinationKeys now) = t := by
        rw [draftStep, recordDraftSavePromotion, hdecode]
      constructor
      · rw [hsame]
        exact endsClaims_nil _
      · simp
      · simp
      · exact fun h => absurd rfl h
      · rw [hsame]
        exact fun row hrow hclaimed => .inr (.inl ⟨row, hrow, hclaimed, rfl, .inl rfl⟩)
  | some keys =>
      obtain rfl := decode_eq_some hdecode
      have hsaves : (draftStep t (.record saveKey fingerprint claimToken keys now)).saves =
          updateWhere (fun row => row.claimedBy saveKey fingerprint claimToken)
            (fun row => { row with destinationKeys := keys, updatedAt := now }) t.saves := by
        rw [draftStep, recordDraftSavePromotion, hdecode]
      constructor
      · rw [draftStep, recordDraftSavePromotion, hdecode]
        exact endsClaims_nil _
      · simp
      · simp
      · exact fun h => absurd rfl h
      · intro row hrow hclaimed
        refine .inr (.inl ?_)
        rw [hsaves]
        cases hmine : row.claimedBy saveKey fingerprint claimToken with
        | false =>
            exact ⟨row, mem_updateWhere.mpr (.inr ⟨hrow, hmine⟩), hclaimed, rfl, .inl rfl⟩
        | true =>
            refine ⟨{ row with destinationKeys := keys, updatedAt := now },
              mem_updateWhere.mpr (.inl ⟨row, hrow, hmine, rfl⟩), hclaimed, rfl,
              .inr ⟨claimToken, keys, (claimedBy_iff.mp hmine).2.2.1, ?_, rfl⟩⟩
            rw [hevents, if_pos (recorded_of_claimed hdecode hrow hmine)]
            exact List.mem_singleton_self _

/-! ### Writes and removals -/

theorem placeDraft_keeps {input : UpsertInput} {existing : Option EmailRow}
    (h : placeDraft input existing now t = .ok t') :
    t'.intents = t.intents ∧ ∀ row ∈ t'.attachments, row ∈ t.attachments := by
  cases existing with
  | some existing =>
      obtain rfl := pure_eq_ok.mp h
      exact ⟨rfl, fun row hrow => (mem_deleteWhere.mp hrow).1⟩
  | none =>
      obtain ⟨_, -, h⟩ := bind_eq_ok.mp h
      obtain rfl := pure_eq_ok.mp h
      exact ⟨rfl, fun _ hrow => hrow⟩

/-- A write leaves the intents alone, and adds no attachments but its own. -/
theorem upsertDraft_keeps {input : UpsertInput} {attachments : List AttachmentRow}
    {result : UpsertDraftResult} (h : upsertDraft input attachments now t = .ok (result, t')) :
    t'.intents = t.intents ∧ ∀ row ∈ t'.attachments, row ∈ t.attachments ∨ row ∈ attachments ∧
      ∃ draftVersion replaced draft, result = .saved input.id draftVersion replaced draft := by
  rw [upsertDraft] at h
  obtain ⟨_, -, h⟩ := bind_eq_ok.mp h
  split at h
  · cases h
    exact ⟨rfl, fun _ hrow => .inl hrow⟩
  · rw [writeDraft.eq_def] at h
    obtain ⟨u, hplaced, h⟩ := bind_eq_ok.mp h
    obtain ⟨u', hattached, h⟩ := bind_eq_ok.mp h
    obtain ⟨hintents, hbefore⟩ := placeDraft_keeps hplaced
    rw [insertAttachments] at hattached
    obtain ⟨_, -, hattached⟩ := bind_eq_ok.mp hattached
    obtain ⟨_, -, hattached⟩ := bind_eq_ok.mp hattached
    obtain rfl := pure_eq_ok.mp hattached
    dsimp only at h
    split at h
    · obtain ⟨_, -, h⟩ := bind_eq_ok.mp h
      cases h
      rw [commitSave_intents, commitSave_attachments]
      obtain ⟨_, hqueued⟩ := enqueueUnownedR2Deletion_eq
        (t := { u with attachments := u.attachments ++ attachments }) input.id
        (((if (t.email input.id).isSome then t.attachmentsOf input.id else []).map
          storedAttachmentKey) ++ input.stagingCleanupKeys) now
      rw [hqueued]
      refine ⟨hintents, fun row hrow => ?_⟩
      rcases List.mem_append.mp hrow with hrow | hrow
      · exact .inl (hbefore row hrow)
      · exact .inr ⟨hrow, _, _, _, rfl⟩
    · cases h

theorem ending_upsert (input : UpsertInput) (attachments : List AttachmentRow)
    (now : ℤ) : Ending t (.upsert input attachments now) [] := by
  have hsame : draftStep t (.upsert input attachments now) = t →
      Ending t (.upsert input attachments now) [] := by
    intro hsame
    refine ⟨?_, by simp, by simp, fun h => absurd rfl h, fun row hrow hclaimed => ?_⟩
    · rw [hsame]
      exact endsClaims_nil _
    · rw [hsame]
      exact .inr (.inl ⟨row, hrow, hclaimed, rfl, .inl rfl⟩)
  cases h : upsertDraft input attachments now t with
  | error => exact hsame (by rw [draftStep, h])
  | ok result =>
      obtain ⟨result, t'⟩ := result
      have hstep : draftStep t (.upsert input attachments now) = t' := by rw [draftStep, h]
      rcases upsertDraft_cases h with ⟨-, rfl⟩ | ⟨draftVersion, replaced, draft, rfl, hwritten⟩
      · exact hsame hstep
      · refine ⟨?_, by simp, by simp, fun h => absurd rfl h, fun row hrow hclaimed => ?_⟩
        · rw [hstep, (upsertDraft_keeps h).1]
          exact endsClaims_nil _
        · rw [hstep, hwritten.saves]
          have hwrite : draftWrite t (.upsert input attachments now) =
              some ⟨input.id, input.expectedVersion, draftVersion, input.saveClaim⟩ := by
            simp only [draftWrite, h]
          cases hclaim : input.saveClaim with
          | none => exact .inr (.inl ⟨row, hrow, hclaimed, rfl, .inl rfl⟩)
          | some claim =>
              cases hmine : row.claimedBy claim.saveKey claim.fingerprint claim.claimToken with
              | true =>
                  exact .inr (.inr ⟨_, claim, hwrite, hclaim, (claimedBy_iff.mp hmine).2.2.1⟩)
              | false =>
                  exact .inr (.inl ⟨row, mem_updateWhere.mpr (.inr ⟨hrow, hmine⟩), hclaimed,
                    rfl, .inl rfl⟩)

theorem ending_remove {call : DraftCall} (id : String) (expectedVersion : ℕ)
    (state : DraftCreateState) (now : ℤ)
    (hstep : draftStep t call = (removeDraftVersion id expectedVersion state now t).2) :
    Ending t call [] := by
  rcases removeDraftVersion_cases (t := t) id expectedVersion state now with
    ⟨refusal, hrefused⟩ | ⟨-, -, hremoved⟩
  · rw [hrefused] at hstep
    refine ⟨?_, by simp, by simp, fun h => absurd rfl h, fun row hrow hclaimed => ?_⟩
    · rw [hstep]
      exact endsClaims_nil _
    · rw [hstep]
      exact .inr (.inl ⟨row, hrow, hclaimed, rfl, .inl rfl⟩)
  · obtain ⟨_, heq⟩ := removeDraft_eq (t := t) id expectedVersion state now
    rw [hremoved, heq] at hstep
    refine ⟨?_, by simp, by simp, fun h => absurd rfl h, fun row hrow hclaimed => ?_⟩
    · rw [hstep]
      exact endsClaims_nil _
    · rw [hstep]
      refine .inr (.inl ⟨row, mem_updateWhere.mpr (.inr ⟨hrow, ?_⟩), hclaimed, rfl, .inl rfl⟩)
      simp [hclaimed]

/-- **What a call does to the claims**, when no claim that stands has left an intent. -/
theorem ending_step (hinv : DraftInv t)
    (hfree : ∀ row ∈ t.saves, ∀ token, row.state = .claimed → row.claimToken = some token →
      plan token t.intents = none) (call : DraftCall) : ∃ ended, Ending t call ended := by
  cases call with
  | claim input now => exact ending_claim hinv input now
  | record saveKey fingerprint claimToken destinationKeys now =>
      exact ⟨[], ending_record saveKey fingerprint claimToken destinationKeys now⟩
  | abort saveKey fingerprint claimToken now =>
      exact ending_abort hinv hfree saveKey fingerprint claimToken now
  | upsert input attachments now => exact ⟨[], ending_upsert input attachments now⟩
  | expire now => exact ⟨_, ending_expire hinv now⟩
  | consume id expectedVersion now => exact ⟨[], ending_remove id expectedVersion .consumed now rfl⟩
  | discard id expectedVersion now =>
      exact ⟨[], ending_remove id expectedVersion .discarded now rfl⟩

/-! ### Attachments -/

theorem promoteExpired_attachments (now : ℤ) (operations : List DraftSaveOperation) :
    (operations.foldl (promoteExpiredClaim now) t).attachments = t.attachments := by
  induction operations generalizing t with
  | nil => rfl
  | cons row operations ih =>
      rw [List.foldl_cons, ih]
      rfl

/-- **The attachments after a call** were there before, or came with a write. -/
theorem attachments_step (call : DraftCall) {row : AttachmentRow}
    (hrow : row ∈ (draftStep t call).attachments) :
    row ∈ t.attachments ∨ ∃ input attachments now write, call = .upsert input attachments now ∧
      draftWrite t call = some write ∧ write.claim = input.saveClaim ∧ row ∈ attachments := by
  have hremoved : ∀ id expectedVersion state now,
      row ∈ (removeDraftVersion id expectedVersion state now t).2.attachments →
        row ∈ t.attachments := by
    intro id expectedVersion state now hrow
    rcases removeDraftVersion_cases (t := t) id expectedVersion state now with
      ⟨refusal, hrefused⟩ | ⟨-, -, hremoved⟩
    · rw [hrefused] at hrow
      exact hrow
    · obtain ⟨_, heq⟩ := removeDraft_eq (t := t) id expectedVersion state now
      rw [hremoved, heq] at hrow
      exact (mem_deleteWhere.mp hrow).1
  cases call with
  | claim input now =>
      rw [draftStep, (claimDraftSave_keeps input now).2.1] at hrow
      exact .inl hrow
  | record saveKey fingerprint claimToken destinationKeys now =>
      rw [draftStep, recordDraftSavePromotion] at hrow
      split at hrow <;> exact .inl hrow
  | abort saveKey fingerprint claimToken now =>
      rw [draftStep, abortDraftSave] at hrow
      split at hrow <;> exact .inl hrow
  | upsert input attachments now =>
      cases h : upsertDraft input attachments now t with
      | error =>
          rw [draftStep, h] at hrow
          exact .inl hrow
      | ok result =>
          obtain ⟨result, t'⟩ := result
          rw [draftStep, h] at hrow
          rcases (upsertDraft_keeps h).2 row hrow with hold | ⟨hnew, version, replaced, draft, rfl⟩
          · exact .inl hold
          · refine .inr ⟨input, attachments, now, ⟨input.id, input.expectedVersion, version,
              input.saveClaim⟩, rfl, ?_, rfl, hnew⟩
            simp only [draftWrite, h]
  | expire now =>
      rw [draftStep, promoteExpiredClaims] at hrow
      dsimp only at hrow
      rw [promoteExpired_attachments] at hrow
      exact .inl hrow
  | consume id expectedVersion now => exact .inl (hremoved id expectedVersion .consumed now hrow)
  | discard id expectedVersion now => exact .inl (hremoved id expectedVersion .discarded now hrow)

end MailPortal.Drafts
