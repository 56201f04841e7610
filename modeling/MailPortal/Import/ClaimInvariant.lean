import MailPortal.Import.EmailClaims

/-!
# What Holds of the Claims

A message has one claim at most. An intent that is not sealed belongs to the claim of its message:
whoever ends the claim deletes it. An intent that was sealed carries its proof, so that the
clean-up finds it when its time comes, whether its claim is there or not.

Main results:

* `ClaimInv` : what always holds.
* `importStep_inv` : every operation keeps it.
* `evidence_importStep` : a reserved digest stays.
-/

namespace MailPortal.Import

open Failure ImportGenerationClaim Table

variable {claim : ImportGenerationClaim} {row : IntentRow} {identity : ImportPromotionIdentity}
  {t' : PromotionTables}
variable {rawSha256 : Option String} {objectCount totalByteLength : ℤ}

/-- **What always holds of claims and intents.** -/
structure ClaimInv (t : PromotionTables) : Prop where
  keys : (t.claims.map messageId).Nodup
  identities : (t.intents.map IntentRow.identity).Nodup
  staging : ∀ row ∈ t.intents, row.state = .staging →
    ∃ claim ∈ t.claims, claim.held row.identity.emailId row.identity.claimToken = true
  proofs : ∀ row ∈ t.intents, row.state.sealed = true → row.proofFingerprint.isSome = true

variable {t : PromotionTables} {emailId token : String} {now : ℤ}

@[simp] theorem held_iff :
    claim.held emailId token = true ↔ claim.messageId = emailId ∧ claim.claimToken = token := by
  simp [held]

@[simp] theorem ofClaim_iff :
    row.ofClaim emailId token = true ↔ row.identity = ⟨emailId, token⟩ := by
  simp [IntentRow.ofClaim]

theorem claimInv_empty : ClaimInv PromotionTables.empty where
  keys := List.nodup_nil
  identities := List.nodup_nil
  staging _ h := absurd h List.not_mem_nil
  proofs _ h := absurd h List.not_mem_nil

/-- The claim of a message is the one that is found. -/
theorem claimOf_eq (hkeys : (t.claims.map messageId).Nodup)
    (h : claim ∈ t.claims) (hid : claim.messageId = emailId) : t.claimOf emailId = some claim := by
  have hlookup := lookup_of_mem hkeys h
  rw [hid] at hlookup
  exact hlookup

theorem claimOf_eq_some (h : t.claimOf emailId = some claim) :
    claim ∈ t.claims ∧ claim.messageId = emailId := by
  have hlookup : lookup messageId emailId t.claims = some claim := h
  exact lookup_eq_some hlookup

/-! ### Statements -/

theorem ClaimInv.deleteStaging (h : ClaimInv t) (emailId token : String) :
    ClaimInv (t.deleteStaging emailId token) where
  keys := h.keys
  identities := nodup_deleteWhere h.identities
  staging row hrow hstaging := h.staging row (mem_deleteWhere.mp hrow).1 hstaging
  proofs row hrow hsealed := h.proofs row (mem_deleteWhere.mp hrow).1 hsealed

/-- The intents of a claim that are not sealed are gone. -/
theorem not_staging_of_deleteStaging (hrow : row ∈ (t.deleteStaging emailId token).intents)
    (hstaging : row.state = .staging) : row.identity ≠ ⟨emailId, token⟩ := by
  intro hidentity
  have hkept := (mem_deleteWhere.mp hrow).2
  rw [ofClaim_iff.mpr hidentity, hstaging] at hkept
  cases hkept

section

variable (h : ClaimInv t)
include h

/-- Intents move on. -/
theorem ClaimInv.updateIntents {p : IntentRow → Bool} {f : IntentRow → IntentRow}
    (hidentity : ∀ row, (f row).identity = row.identity)
    (hstaging : ∀ row, p row = true → (f row).state ≠ .staging)
    (hproof : ∀ row, p row = true → (f row).state.sealed = true →
      row.state.sealed = true ∧ (f row).proofFingerprint = row.proofFingerprint) :
    ClaimInv { t with intents := updateWhere p f t.intents } where
  keys := h.keys
  identities := by
    rw [map_key_updateWhere hidentity]
    exact h.identities
  staging row hrow hstate := by
    rcases mem_updateWhere.mp hrow with ⟨old, hold, hp, rfl⟩ | ⟨hold, -⟩
    · exact absurd hstate (hstaging old hp)
    · exact h.staging row hold hstate
  proofs row hrow hsealed := by
    rcases mem_updateWhere.mp hrow with ⟨old, hold, hp, rfl⟩ | ⟨hold, -⟩
    · obtain ⟨hold', hsame⟩ := hproof old hp hsealed
      rw [hsame]
      exact h.proofs old hold hold'
    · exact h.proofs row hold hsealed

theorem ClaimInv.abandon (emailId token : String) : ClaimInv (t.abandon emailId token) := by
  refine h.updateIntents (fun _ => rfl) (fun _ _ => by simp) fun row hp _ => ⟨?_, rfl⟩
  exact (Bool.and_eq_true_iff.mp hp).2

/-- Claims end whose intents are all sealed. -/
theorem ClaimInv.deleteClaims {p : ImportGenerationClaim → Bool}
    (hnone : ∀ row ∈ t.intents, row.state = .staging → ∀ claim ∈ t.claims,
      claim.messageId = row.identity.emailId → claim.claimToken = row.identity.claimToken →
        p claim = false) : ClaimInv (t.deleteClaims p) where
  keys := nodup_deleteWhere h.keys
  identities := h.identities
  staging row hrow hstaging := by
    obtain ⟨claim, hclaim, hheld⟩ := h.staging row hrow hstaging
    obtain ⟨hid, htoken⟩ := held_iff.mp hheld
    exact ⟨claim, mem_deleteWhere.mpr
      ⟨hclaim, hnone row hrow hstaging claim hclaim hid htoken⟩, hheld⟩
  proofs := h.proofs

/-! ### Claims -/

theorem ClaimInv.endClaim (emailId : String) : ClaimInv (endClaim emailId t) := by
  rw [Import.endClaim]
  cases hclaim : t.claimOf emailId with
  | none =>
      refine h.deleteClaims fun row _ _ claim hmem _ _ => decide_eq_false fun hid => ?_
      rw [claimOf_eq h.keys hmem hid] at hclaim
      cases hclaim
  | some current =>
      refine (h.deleteStaging emailId current.claimToken).deleteClaims
        fun row hrow hstaging claim hmem hid htoken => decide_eq_false fun hmessage => ?_
      have hsame := claimOf_eq h.keys hmem hmessage
      rw [hclaim] at hsame
      cases hsame
      refine not_staging_of_deleteStaging hrow hstaging ?_
      rw [← hmessage, hid, htoken]

theorem ClaimInv.endExpiredClaim (emailId : String) (now : ℤ) :
    ClaimInv (endExpiredClaim emailId now t) := by
  rw [Import.endExpiredClaim]
  cases hexpired : t.claims.find? fun claim =>
      decide (claim.messageId = emailId) && decide (claim.expiresAt ≤ now) with
  | none =>
      dsimp only
      split
      · exact h
      · refine h.deleteClaims fun row _ _ claim hmem _ _ => ?_
        simpa using List.find?_eq_none.mp hexpired claim hmem
  | some current =>
      have hinv := (h.abandon emailId current.claimToken).deleteStaging emailId current.claimToken
      have hcurrent := List.find?_some hexpired
      obtain ⟨hcurrentId, -⟩ := Bool.and_eq_true_iff.mp hcurrent
      have hfound := claimOf_eq h.keys (List.mem_of_find?_eq_some hexpired)
        (of_decide_eq_true hcurrentId)
      dsimp only
      split
      · exact hinv
      · refine hinv.deleteClaims fun row hrow hstaging claim hmem hid htoken => ?_
        refine Bool.eq_false_iff.mpr fun hp => ?_
        have hmessage := of_decide_eq_true (Bool.and_eq_true_iff.mp hp).1
        have hsame := claimOf_eq h.keys hmem hmessage
        rw [hfound] at hsame
        cases hsame
        refine not_staging_of_deleteStaging hrow hstaging ?_
        rw [← hmessage, hid, htoken]

theorem ClaimInv.insertClaim (emailId token : String) (expiresAt : ℤ) (rawSha256 : Option String) :
    ClaimInv (insertClaim emailId token expiresAt rawSha256 t) := by
  rw [Import.insertClaim]
  split
  · rename_i hnew
    obtain ⟨hnew, -⟩ := Bool.and_eq_true_iff.mp hnew
    refine ⟨?_, h.identities, fun row hrow hstaging => ?_, h.proofs⟩
    · rw [List.map_append]
      refine List.nodup_append.mpr ⟨h.keys, List.nodup_singleton _, fun id hid id' hid' heq => ?_⟩
      obtain ⟨claim, hclaim, rfl⟩ := List.mem_map.mp hid
      obtain rfl := List.mem_singleton.mp hid'
      exact of_decide_eq_true (List.all_eq_true.mp hnew claim hclaim) heq
    · obtain ⟨claim, hclaim, hheld⟩ := h.staging row hrow hstaging
      exact ⟨claim, List.mem_append_left _ hclaim, hheld⟩
  · exact h

end

/-- **All that a claim does** to claims and intents. -/
theorem claim_promotion {t t' : ImportTables} {emailId legacyId token : String} {now expiresAt : ℤ}
    {identitySource : ImportIdentitySource} {result : ImportEmailClaimResult}
    (h : claimImportedEmail emailId legacyId token now expiresAt identitySource rawSha256 t =
      .ok (result, t')) :
    (t'.promotion = t.promotion ∧ t'.sources = t.sources ∧
        (result = .busy ∨ ∃ id, result = .identityConflict id)) ∨
      (t'.promotion = endClaim emailId t.promotion ∧ t'.sources = t.sources ∧
        (existingEmail t emailId legacyId).isSome = true ∧
          ∃ id folder raw, result = .existing id folder raw) ∨
      t'.promotion = insertClaim emailId token expiresAt rawSha256
          (endExpiredClaim emailId now t.promotion) ∧ t.promotion.blocked emailId = false ∧
        (result = .busy ∧ t'.sources = t.sources ∧
            (t'.promotion.claimOf emailId).map claimToken ≠ some token ∨
          result = .claimed ∧
            (t'.promotion.claimOf emailId).map claimToken = some token ∧
            (t'.sources = t.sources ∨ t'.sources = reserve emailId rawSha256 t.sources)) := by
  rw [claimImportedEmail] at h
  split at h
  · cases h
    exact .inl ⟨rfl, rfl, .inr ⟨_, rfl⟩⟩
  split at h
  · rename_i hexisting
    split at h
    · cases h
      exact .inl ⟨rfl, rfl, .inr ⟨_, rfl⟩⟩
    split at h
    · cases h
      exact .inl ⟨rfl, rfl, .inl rfl⟩
    · cases h
      exact .inr (.inl ⟨rfl, rfl, hexisting ▸ rfl, _, _, _, rfl⟩)
  split at h
  · cases h
    exact .inl ⟨rfl, rfl, .inl rfl⟩
  rename_i hblocked
  refine .inr (.inr ?_)
  rw [claimMissing] at h
  dsimp only at h
  split at h
  · rename_i hother
    cases h
    exact ⟨rfl, Bool.eq_false_iff.mpr hblocked, .inl ⟨rfl, rfl, hother⟩⟩
  rename_i hown
  split at h
  · obtain ⟨_, -, h⟩ := bind_eq_ok.mp h
    cases h
    exact ⟨rfl, Bool.eq_false_iff.mpr hblocked,
      .inr ⟨rfl, Decidable.not_not.mp hown, .inr rfl⟩⟩
  · cases h
    exact ⟨rfl, Bool.eq_false_iff.mpr hblocked,
      .inr ⟨rfl, Decidable.not_not.mp hown, .inl rfl⟩⟩

/-! ### Release, renewal and clean-up -/

theorem ClaimInv.release {t : ImportTables} (h : ClaimInv t.promotion) (emailId token : String) :
    ClaimInv (releaseImportedEmailClaim emailId token t).2.promotion := by
  rw [releaseImportedEmailClaim]
  split
  · exact h
  · refine (h.deleteStaging emailId token).deleteClaims
      fun row hrow hstaging claim hmem hid htoken => Bool.eq_false_iff.mpr fun hheld => ?_
    obtain ⟨hmessage, hclaim⟩ := held_iff.mp hheld
    refine not_staging_of_deleteStaging hrow hstaging ?_
    rw [← hmessage, ← hclaim, hid, htoken]

theorem ClaimInv.renew {t : ImportTables} (h : ClaimInv t.promotion) (emailId token : String)
    (now expiresAt : ℤ) :
    ClaimInv (renewImportedEmailClaim emailId token now expiresAt t).2.promotion := by
  rw [renewImportedEmailClaim]
  split
  · split
    · exact h
    · refine ⟨?_, h.identities, fun row hrow hstaging => ?_, h.proofs⟩
      · have hkeys : ∀ p : ImportGenerationClaim → Bool,
            (updateWhere p (fun claim => { claim with expiresAt := expiresAt })
              t.promotion.claims).map messageId =
                t.promotion.claims.map messageId :=
          fun p => map_key_updateWhere fun _ => rfl
        exact (hkeys _).symm ▸ h.keys
      · obtain ⟨claim, hclaim, hheld⟩ := h.staging row hrow hstaging
        cases hp : claim.held emailId token && decide (now < claim.expiresAt) with
        | true =>
            exact ⟨_, mem_updateWhere.mpr (.inl ⟨claim, hclaim, hp, rfl⟩), hheld⟩
        | false => exact ⟨claim, mem_updateWhere.mpr (.inr ⟨hclaim, hp⟩), hheld⟩
  · exact h

theorem ClaimInv.cleanUpClaim (h : ClaimInv t) (now : ℤ) (claim : ImportGenerationClaim) :
    ClaimInv (cleanUpClaim now t claim) := by
  have hinv := (h.abandon claim.messageId claim.claimToken).deleteStaging claim.messageId
    claim.claimToken
  rw [Import.cleanUpClaim]
  split
  · exact hinv
  · refine hinv.deleteClaims fun row hrow hstaging claim' _ hid htoken => ?_
    refine Bool.eq_false_iff.mpr fun hp => ?_
    obtain ⟨hmessage, hclaim⟩ := held_iff.mp (Bool.and_eq_true_iff.mp hp).1
    refine not_staging_of_deleteStaging hrow hstaging ?_
    rw [← hmessage, ← hclaim, hid, htoken]

theorem ClaimInv.cleanUp (h : ClaimInv t) (now : ℤ) : ClaimInv (cleanUpClaims now t) := by
  rw [cleanUpClaims]
  generalize expiredClaims now t.claims = claims
  induction claims generalizing t with
  | nil => exact h
  | cons claim claims ih => exact ih (h.cleanUpClaim now claim)

/-! ### Intents -/

theorem ClaimInv.startReconcile (h : ClaimInv t) (identity : ImportPromotionIdentity)
    (proofFingerprint : String) : ClaimInv (startReconcile identity proofFingerprint t) := by
  refine h.updateIntents (fun _ => rfl) (fun _ _ => by simp) fun row hp _ => ⟨?_, rfl⟩
  exact (Bool.and_eq_true_iff.mp hp).2

theorem ClaimInv.endReconcile (h : ClaimInv t) (identity : ImportPromotionIdentity)
    (outcome : ReconcileOutcome) : ClaimInv (endReconcile identity outcome t) := by
  have hinv : ClaimInv { t with
      intents := updateWhere
        (fun row => decide (row.identity = identity) && decide (row.state = .reconciling))
        (fun row => { row with state := outcome.state }) t.intents } := by
    refine h.updateIntents (fun _ => rfl) (fun row _ => ?_) fun row hp _ => ⟨?_, rfl⟩
    · rcases outcome with (_ | _) | _ | _ <;> simp [ReconcileOutcome.state]
    · rw [of_decide_eq_true (Bool.and_eq_true_iff.mp hp).2]
      rfl
  rw [Import.endReconcile]
  split
  · rename_i hreconciling
    dsimp only
    split
    · refine hinv.deleteClaims fun row hrow hstaging claim _ hid htoken => ?_
      refine Bool.eq_false_iff.mpr fun hheld => ?_
      obtain ⟨hmessage, hclaim⟩ := held_iff.mp hheld
      have hidentity : row.identity = identity := by
        cases hrow : row.identity
        cases identity
        simp_all
      -- The intent that was reconciled is the only one of its claim.
      obtain ⟨settled, hsettled, hp⟩ := List.any_eq_true.mp hreconciling
      obtain ⟨hsettledId, hstate⟩ := Bool.and_eq_true_iff.mp hp
      rcases mem_updateWhere.mp hrow with ⟨old, _, _, rfl⟩ | ⟨hold, hnot⟩
      · rcases outcome with (_ | _) | _ | _ <;> cases hstaging
      · rw [eq_of_key_eq h.identities hold hsettled
          (hidentity.trans (of_decide_eq_true hsettledId).symm),
          of_decide_eq_true hstate] at hstaging
        cases hstaging
    · exact hinv
  · exact h

/-- An intent begins under a claim that is live. -/
theorem begin_live {now : ℤ} {initial : String} {result : PromotionStatus × PromotionTables}
    (h : beginImportPromotionIntent identity objectCount totalByteLength initial now t =
      .ok result) : ∃ claim ∈ t.claims, claim.held identity.emailId identity.claimToken = true := by
  simp only [beginImportPromotionIntent, bind_eq_ok, require_eq_ok] at h
  obtain ⟨-, -, -, -, -, -, -, -, -, hlive, -⟩ := h
  obtain ⟨claim, hclaim⟩ := Option.isSome_iff_exists.mp hlive
  have hfound := List.find?_some hclaim
  simp only [decide_eq_true_eq] at hfound
  exact ⟨claim, List.mem_of_find?_eq_some hclaim, held_iff.mpr ⟨hfound.1, hfound.2.1⟩⟩

/-- One intent changes, and stays with its claim if it is not sealed. -/
theorem ClaimInv.updateIntent (h : ClaimInv t) {old : IntentRow}
    (hold : t.intent row.identity = some old) (objects : List IntentObjectRow)
    (hstaging : row.state = .staging → old.state = .staging)
    (hproof : row.state.sealed = true → row.proofFingerprint.isSome = true) :
    ClaimInv { t with
      intents := update IntentRow.identity row t.intents, objects := objects } where
  keys := h.keys
  identities := by
    rw [map_key_update]
    exact h.identities
  staging other hother hstate := by
    rcases mem_update hother with rfl | ⟨hmem, -⟩
    · obtain ⟨hmem, hidentity⟩ := lookup_eq_some hold
      rw [← hidentity]
      exact h.staging old hmem (hstaging hstate)
    · exact h.staging other hmem hstate
  proofs other hother hsealed := by
    rcases mem_update hother with rfl | ⟨hmem, -⟩
    · exact hproof hsealed
    · exact h.proofs other hmem hsealed

variable {sha256Hex : String → String}

theorem ClaimInv.beginIntent (h : ClaimInv t) {now : ℤ}
    (hcall : callTables sha256Hex t (.beginIntent identity objectCount totalByteLength now) =
      .ok t') : ClaimInv t' := by
  simp only [callTables, bind_eq_ok, pure_eq_ok] at hcall
  obtain ⟨initial, -, result, hresult, rfl⟩ := hcall
  obtain ⟨-, -, -, ⟨_, -, -, -, hsame⟩ | ⟨hfresh, hinsert⟩⟩ := begin_eq_ok hresult
  · rw [hsame]
    exact h
  · rw [hinsert]
    refine ⟨h.keys, ?_, fun row hrow hstaging => ?_, fun row hrow hsealed => ?_⟩
    · rw [List.map_append]
      refine List.nodup_append.mpr ⟨h.identities, List.nodup_singleton _, ?_⟩
      intro other hother other' hother' heq
      obtain ⟨row, hrow, rfl⟩ := List.mem_map.mp hother
      obtain rfl := List.mem_singleton.mp hother'
      have hfound := lookup_of_mem h.identities hrow
      rw [heq] at hfound
      exact absurd (hfresh.symm.trans hfound) (by simp)
    · rcases List.mem_append.mp hrow with hrow | hrow
      · exact h.staging row hrow hstaging
      · obtain rfl := List.mem_singleton.mp hrow
        have hlive := begin_live hresult
        exact hlive
    · rcases List.mem_append.mp hrow with hrow | hrow
      · exact h.proofs row hrow hsealed
      · obtain rfl := List.mem_singleton.mp hrow
        cases hsealed

theorem ClaimInv.appendIntent (h : ClaimInv t) {objects : List ImportPromotionObject}
    {snapshot : ImportPromotionAppendSnapshot} {now : ℤ}
    (hcall : callTables sha256Hex t (.appendIntent identity objects snapshot now) = .ok t') :
    ClaimInv t' := by
  simp only [callTables, bind_eq_ok, pure_eq_ok] at hcall
  obtain ⟨next, -, result, hresult, rfl⟩ := hcall
  obtain ⟨row, hrow, ⟨hsame, -⟩ | ⟨hrecordable, -, hwrite⟩⟩ := append_eq_ok hresult
  · rw [hsame]
    exact h
  · rw [hwrite]
    have hold : t.intent (appendedRow row objects next).identity = some row := by
      have hidentity := intent_identity hrow
      rw [show (appendedRow row objects next).identity = identity from hidentity, hrow]
    refine h.updateIntent hold _ (fun _ => hrecordable.staging) fun hsealed => ?_
    rw [show (appendedRow row objects next).state = .staging from hrecordable.staging] at hsealed
    cases hsealed

theorem ClaimInv.sealIntent (h : ClaimInv t) {now : ℤ}
    (hcall : callTables sha256Hex t (.sealIntent identity now) = .ok t') : ClaimInv t' := by
  simp only [callTables, bind_eq_ok, pure_eq_ok] at hcall
  obtain ⟨result, hresult, rfl⟩ := hcall
  obtain ⟨row, hrow, -, ⟨-, hsame⟩ | ⟨-, hstaging, -, -, hwrite⟩⟩ := seal_eq_ok hresult
  · rw [hsame]
    exact h
  · rw [hwrite]
    have hold : t.intent (sealedRow row).identity = some row := by
      have hidentity := intent_identity hrow
      rw [show (sealedRow row).identity = identity from hidentity, hrow]
    exact h.updateIntent hold _ (fun _ => hstaging) fun _ => rfl

/-! ### Every operation -/

theorem importStep_eq (sha256Hex : String → String) (t : ImportTables) (call : ImportCall) :
    importStep sha256Hex t call = t ∨
      importCallTables sha256Hex t call = .ok (importStep sha256Hex t call) := by
  rw [importStep]
  cases h : importCallTables sha256Hex t call with
  | ok t' => exact .inr rfl
  | error e => exact .inl rfl

/-- **Every operation keeps the invariant.** -/
theorem importStep_inv {t : ImportTables} (h : ClaimInv t.promotion) (call : ImportCall) :
    ClaimInv (importStep sha256Hex t call).promotion := by
  have hcases := importStep_eq sha256Hex t call
  rcases hcases with hsame | hok
  · rw [hsame]
    exact h
  generalize importStep sha256Hex t call = t' at hok
  cases call with
  | claim emailId legacyId token now expiresAt identitySource rawSha256 =>
      obtain ⟨⟨result, t''⟩, hclaim, hok⟩ := bind_eq_ok.mp hok
      obtain rfl := pure_eq_ok.mp hok
      rcases claim_promotion hclaim with ⟨hsame, -⟩ | ⟨hended, -⟩ | ⟨hinserted, -⟩
      · exact hsame ▸ h
      · exact hended ▸ h.endClaim emailId
      · exact hinserted ▸ (h.endExpiredClaim emailId now).insertClaim emailId token expiresAt _
  | renew emailId token now expiresAt =>
      obtain rfl := pure_eq_ok.mp hok
      exact h.renew emailId token now expiresAt
  | release emailId token =>
      obtain rfl := pure_eq_ok.mp hok
      exact h.release emailId token
  | beginIntent identity objectCount totalByteLength now =>
      obtain ⟨promotion, hcall, hok⟩ := bind_eq_ok.mp hok
      obtain rfl := pure_eq_ok.mp hok
      exact h.beginIntent hcall
  | appendIntent identity objects snapshot now =>
      obtain ⟨promotion, hcall, hok⟩ := bind_eq_ok.mp hok
      obtain rfl := pure_eq_ok.mp hok
      exact h.appendIntent hcall
  | sealIntent identity now =>
      obtain ⟨promotion, hcall, hok⟩ := bind_eq_ok.mp hok
      obtain rfl := pure_eq_ok.mp hok
      exact h.sealIntent hcall
  | startReconcile identity proofFingerprint =>
      obtain rfl := pure_eq_ok.mp hok
      exact h.startReconcile identity proofFingerprint
  | endReconcile identity outcome =>
      obtain rfl := pure_eq_ok.mp hok
      exact h.endReconcile identity outcome
  | cleanUp now =>
      obtain rfl := pure_eq_ok.mp hok
      exact h.cleanUp now
  | insertEmail id folderId =>
      simp only [importCallTables] at hok
      split at hok
      · cases hok
      · obtain rfl := pure_eq_ok.mp hok
        exact h

/-! ### Reserved digests -/

theorem reserve_keeps {emailId id digest : String} {sources : List SourceIdentity}
    (h : (sources.find? fun source => source.emailId = id).map SourceIdentity.rawSha256 =
      some digest) :
    ((reserve emailId rawSha256 sources).find? fun source => source.emailId = id).map
      SourceIdentity.rawSha256 = some digest := by
  obtain ⟨source, hsource, rfl⟩ := Option.map_eq_some_iff.mp h
  cases rawSha256 with
  | none => exact h
  | some reserved =>
      rw [reserve]
      split
      · rw [List.find?_append, hsource]
        rfl
      · exact h

/-- **A reserved digest never changes.** -/
theorem evidence_importStep {t : ImportTables} {id digest : String}
    (h : t.evidence id = some digest) (call : ImportCall) :
    (importStep sha256Hex t call).evidence id = some digest := by
  have hcases := importStep_eq sha256Hex t call
  rcases hcases with hsame | hok
  · rw [hsame]
    exact h
  generalize importStep sha256Hex t call = t' at hok
  have hsources : t'.sources = t.sources → t'.evidence id = some digest := by
    intro hsame
    rw [ImportTables.evidence, hsame]
    exact h
  cases call with
  | claim emailId legacyId token now expiresAt identitySource rawSha256 =>
      obtain ⟨⟨result, t''⟩, hclaim, hok⟩ := bind_eq_ok.mp hok
      obtain rfl := pure_eq_ok.mp hok
      rcases claim_promotion hclaim with ⟨-, hsame, -⟩ | ⟨-, hsame, -⟩ |
        ⟨-, -, ⟨-, hsame, -⟩ | ⟨-, -, hsame | hreserved⟩⟩
      · exact hsources hsame
      · exact hsources hsame
      · exact hsources hsame
      · exact hsources hsame
      · rw [ImportTables.evidence, hreserved]
        exact reserve_keeps h
  | beginIntent | appendIntent | sealIntent =>
      obtain ⟨promotion, -, hok⟩ := bind_eq_ok.mp hok
      exact hsources (congrArg ImportTables.sources (pure_eq_ok.mp hok)).symm
  | renew emailId token now expiresAt =>
      obtain rfl := pure_eq_ok.mp hok
      refine hsources ?_
      rw [renewImportedEmailClaim]
      split
      · split <;> rfl
      · rfl
  | release emailId token =>
      obtain rfl := pure_eq_ok.mp hok
      refine hsources ?_
      rw [releaseImportedEmailClaim]
      split <;> rfl
  | startReconcile | endReconcile | cleanUp =>
      exact hsources (congrArg ImportTables.sources (pure_eq_ok.mp hok)).symm
  | insertEmail emailId folderId =>
      simp only [importCallTables] at hok
      split at hok
      · cases hok
      · obtain rfl := pure_eq_ok.mp hok
        exact h

end MailPortal.Import
