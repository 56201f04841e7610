import MailPortal.Import.ClaimInvariant

/-!
# Import Identity is Exclusive

Whoever claims a message holds it until the claim is released, or has expired for somebody who
looks, or the message is found to be there, or the promotion under the claim has been settled. An id
that is reserved for a digest is for nothing else.

Main results:

* `import_identity_exclusive` : all of this, after any operations.
* `claim_ends_early` : the other ways in which a claim ends.
-/

namespace MailPortal.Import

open Failure

variable {sha256Hex : String → String} {t : PromotionTables} {emailId token : String}
variable {token' other legacyId : String} {now expiresAt : ℤ} {rawSha256 : Option String}
  {identitySource : ImportIdentitySource}
variable {t' : PromotionTables} {result : ImportEmailClaimResult}

/-! ### Who holds a claim -/

/-- The message is claimed under the token. -/
def Holds (t : PromotionTables) (emailId token : String) : Prop :=
  ∃ claim ∈ t.claims, claim.held emailId token = true

theorem Holds.of_claims (h : Holds t emailId token) (hclaims : t'.claims = t.claims) :
    Holds t' emailId token := by
  rw [Holds, hclaims]
  exact h

theorem Holds.deleteClaims (h : Holds t emailId token) {p : ImportGenerationClaim → Bool}
    (hp : ∀ claim ∈ t.claims, claim.held emailId token = true → p claim = false) :
    Holds (t.deleteClaims p) emailId token := by
  obtain ⟨claim, hmem, hheld⟩ := h
  exact ⟨claim, Table.mem_deleteWhere.mpr ⟨hmem, hp claim hmem hheld⟩, hheld⟩

/-- Nobody else holds the claim. -/
theorem Holds.unique (hkeys : (t.claims.map ImportGenerationClaim.messageId).Nodup)
    (h : Holds t emailId token) (h' : Holds t emailId token') : token' = token := by
  obtain ⟨claim, hmem, hheld⟩ := h
  obtain ⟨claim', hmem', hheld'⟩ := h'
  obtain ⟨hid, rfl⟩ := held_iff.mp hheld
  obtain ⟨hid', rfl⟩ := held_iff.mp hheld'
  rw [Table.eq_of_key_eq hkeys hmem hmem' (hid.trans hid'.symm)]

theorem holds_of_claimOf
    (h : (t.claimOf emailId).map ImportGenerationClaim.claimToken = some token) :
    Holds t emailId token := by
  obtain ⟨claim, hclaim, htoken⟩ := Option.map_eq_some_iff.mp h
  obtain ⟨hmem, hid⟩ := claimOf_eq_some hclaim
  exact ⟨claim, hmem, held_iff.mpr ⟨hid, htoken⟩⟩

/-! ### What ends a claim -/

/-- The claim of a message has expired for who looks at this time. -/
def ExpiredAt (t : PromotionTables) (emailId : String) (now : ℤ) : Prop :=
  ∃ claim ∈ t.claims, claim.messageId = emailId ∧ claim.expiresAt ≤ now

/-- **What may end a claim**: it is released; it has expired for another claim, or for the
clean-up; another claim finds the message; or the promotion under it is settled. -/
def EndsClaim (emailId token : String) (t : ImportTables) : ImportCall → Prop
  | .claim emailId' legacyId _ now _ _ _ => emailId' = emailId ∧
      (ExpiredAt t.promotion emailId now ∨ (existingEmail t emailId legacyId).isSome = true)
  | .release emailId' token' => emailId' = emailId ∧ token' = token ∧
      (releaseImportedEmailClaim emailId' token' t).1 = true
  | .endReconcile identity outcome => identity = ⟨emailId, token⟩ ∧ outcome = .finalized
  | .cleanUp now => ExpiredAt t.promotion emailId now
  | _ => False

section

variable (h : Holds t emailId token)
include h

theorem Holds.endClaim (hother : other ≠ emailId) : Holds (endClaim other t) emailId token := by
  have hends : ∀ t' : PromotionTables, Holds t' emailId token →
      Holds (t'.deleteClaims fun claim => claim.messageId = other) emailId token := by
    refine fun t' h' => h'.deleteClaims fun claim _ hheld => decide_eq_false fun hid => ?_
    exact hother (hid.symm.trans (held_iff.mp hheld).1)
  rw [Import.endClaim]
  split
  · exact hends _ (h.of_claims rfl)
  · exact hends _ h

theorem Holds.endExpiredClaim (hother : ¬ (other = emailId ∧ ExpiredAt t emailId now)) :
    Holds (endExpiredClaim other now t) emailId token := by
  have hends : ∀ t' : PromotionTables, t'.claims = t.claims →
      Holds (if t'.blocked other then t' else t'.deleteClaims fun claim =>
        decide (claim.messageId = other) && decide (claim.expiresAt ≤ now)) emailId token := by
    intro t' hclaims
    split
    · exact h.of_claims hclaims
    · refine (h.of_claims hclaims).deleteClaims fun claim hmem hheld => ?_
      refine Bool.eq_false_iff.mpr fun hp => hother ?_
      obtain ⟨hid, hexpired⟩ := Bool.and_eq_true_iff.mp hp
      obtain ⟨hheldId, -⟩ := held_iff.mp hheld
      exact ⟨(of_decide_eq_true hid).symm.trans hheldId, claim, hclaims ▸ hmem, hheldId,
        of_decide_eq_true hexpired⟩
  rw [Import.endExpiredClaim]
  split
  · exact hends _ rfl
  · exact hends _ rfl

theorem Holds.insertClaim :
    Holds (insertClaim other token' expiresAt rawSha256 t) emailId
      token := by
  obtain ⟨claim, hmem, hheld⟩ := h
  rw [Import.insertClaim]
  split
  · exact ⟨claim, List.mem_append_left _ hmem, hheld⟩
  · exact ⟨claim, hmem, hheld⟩

theorem Holds.cleanUp (hlive : ¬ ExpiredAt t emailId now) :
    Holds (cleanUpClaims now t) emailId token := by
  -- The clean-up goes over claims that it has read before; ours stays as it is.
  obtain ⟨claim, hmem, hheld⟩ := h
  have hnow : ¬ claim.expiresAt ≤ now :=
    fun hexpired => hlive ⟨claim, hmem, (held_iff.mp hheld).1, hexpired⟩
  rw [cleanUpClaims]
  generalize expiredClaims now t.claims = claims
  clear hlive
  induction claims generalizing t with
  | nil => exact ⟨claim, hmem, hheld⟩
  | cons first claims ih =>
      refine ih ?_
      rw [cleanUpClaim]
      split
      · exact hmem
      · refine Table.mem_deleteWhere.mpr ⟨hmem, ?_⟩
        rw [decide_eq_false hnow, Bool.and_false]

end

/-- Begin, append and seal leave the claims alone. -/
theorem callTables_claims {call : PromotionCall} (hcall : callTables sha256Hex t call = .ok t')
    (hwriter : ∀ claims, call ≠ .claims claims) : t'.claims = t.claims := by
  cases call with
  | claims claims => exact absurd rfl (hwriter claims)
  | beginIntent identity objectCount totalByteLength now =>
      simp only [callTables, bind_eq_ok, pure_eq_ok] at hcall
      obtain ⟨initial, -, result, hresult, rfl⟩ := hcall
      obtain ⟨-, -, -, ⟨_, -, -, -, hsame⟩ | ⟨-, hinsert⟩⟩ := begin_eq_ok hresult
      · rw [hsame]
      · rw [hinsert]
  | appendIntent identity objects snapshot now =>
      simp only [callTables, bind_eq_ok, pure_eq_ok] at hcall
      obtain ⟨next, -, result, hresult, rfl⟩ := hcall
      obtain ⟨row, -, ⟨hsame, -⟩ | ⟨-, -, hwrite⟩⟩ := append_eq_ok hresult
      · rw [hsame]
      · rw [hwrite]
  | sealIntent identity now =>
      simp only [callTables, bind_eq_ok, pure_eq_ok] at hcall
      obtain ⟨result, hresult, rfl⟩ := hcall
      obtain ⟨row, -, -, ⟨-, hsame⟩ | ⟨-, -, -, -, hwrite⟩⟩ := seal_eq_ok hresult
      · rw [hsame]
      · rw [hwrite]

/-- **A claim is held** through every operation that does not end it. -/
theorem Holds.importStep {t : ImportTables} (h : Holds t.promotion emailId token)
    {call : ImportCall} (hkeeps : ¬ EndsClaim emailId token t call) :
    Holds (importStep sha256Hex t call).promotion emailId token := by
  have hcases := importStep_eq sha256Hex t call
  rcases hcases with hsame | hok
  · rw [hsame]
    exact h
  generalize Import.importStep sha256Hex t call = t' at hok
  cases call with
  | claim emailId' legacyId token' now expiresAt identitySource rawSha256 =>
      obtain ⟨⟨result, t''⟩, hclaim, hok⟩ := bind_eq_ok.mp hok
      obtain rfl := pure_eq_ok.mp hok
      rcases claim_promotion hclaim with ⟨hsame, -⟩ | ⟨hended, -, hexisting, -⟩ | ⟨hinserted, -⟩
      · exact hsame ▸ h
      · refine hended ▸ h.endClaim fun hid => hkeeps ⟨hid, .inr ?_⟩
        exact hid ▸ hexisting
      · refine hinserted ▸ (h.endExpiredClaim fun hends => hkeeps ?_).insertClaim
        exact ⟨hends.1, .inl hends.2⟩
  | renew emailId' token' now expiresAt =>
      obtain rfl := pure_eq_ok.mp hok
      obtain ⟨claim, hmem, hheld⟩ := h
      rw [renewImportedEmailClaim]
      split
      · split
        · exact ⟨claim, hmem, hheld⟩
        · cases hp : claim.held emailId' token' && decide (now < claim.expiresAt) with
          | true => exact ⟨_, Table.mem_updateWhere.mpr (.inl ⟨claim, hmem, hp, rfl⟩), hheld⟩
          | false => exact ⟨claim, Table.mem_updateWhere.mpr (.inr ⟨hmem, hp⟩), hheld⟩
      · exact ⟨claim, hmem, hheld⟩
  | release emailId' token' =>
      obtain rfl := pure_eq_ok.mp hok
      rw [releaseImportedEmailClaim]
      split
      · exact h
      · rename_i hfree
        have hheld : Holds (t.promotion.deleteStaging emailId' token') emailId token :=
          h.of_claims rfl
        refine hheld.deleteClaims
          fun claim _ hheld => Bool.eq_false_iff.mpr fun hother => hkeeps ?_
        obtain ⟨hid, htoken⟩ := held_iff.mp hheld
        obtain ⟨hid', htoken'⟩ := held_iff.mp hother
        refine ⟨hid'.symm.trans hid, htoken'.symm.trans htoken, ?_⟩
        rw [releaseImportedEmailClaim, if_neg hfree]
  | beginIntent | appendIntent | sealIntent =>
      obtain ⟨promotion, hcall, hok⟩ := bind_eq_ok.mp hok
      obtain rfl := pure_eq_ok.mp hok
      exact h.of_claims (callTables_claims hcall (by simp))
  | startReconcile identity proofFingerprint =>
      obtain rfl := pure_eq_ok.mp hok
      exact h.of_claims rfl
  | endReconcile identity outcome =>
      obtain rfl := pure_eq_ok.mp hok
      rw [Import.endReconcile]
      split
      · dsimp only
        split
        · rename_i hfinal
          refine Holds.deleteClaims (h.of_claims rfl) fun claim _ hheld =>
            Bool.eq_false_iff.mpr fun hother => hkeeps ⟨?_, hfinal⟩
          obtain ⟨hid, htoken⟩ := held_iff.mp hheld
          obtain ⟨hid', htoken'⟩ := held_iff.mp hother
          cases identity
          simp_all
        · exact h.of_claims rfl
      · exact h
  | cleanUp now =>
      obtain rfl := pure_eq_ok.mp hok
      exact h.cleanUp hkeeps
  | insertEmail id folderId =>
      simp only [importCallTables] at hok
      split at hok
      · cases hok
      · obtain rfl := pure_eq_ok.mp hok
        exact h

/-! ### The results -/

/-- The tables after some operations. -/
def importRun (sha256Hex : String → String) (calls : List ImportCall) : ImportTables :=
  Runs.run (importStep sha256Hex) .empty calls

theorem importRun_inv (sha256Hex : String → String) (calls : List ImportCall) :
    ClaimInv (importRun sha256Hex calls).promotion := by
  have hstep : ∀ (t : ImportTables) (call : ImportCall), ClaimInv t.promotion →
      ClaimInv (importStep sha256Hex t call).promotion := fun _ call h => importStep_inv h call
  exact Runs.run_invariant hstep claimInv_empty calls

/-- A claim that is granted is held. -/
theorem holds_of_claimed {t t' : ImportTables}
    (h : claimImportedEmail emailId legacyId token now expiresAt identitySource rawSha256 t =
      .ok (.claimed, t')) : Holds t'.promotion emailId token := by
  rcases claim_promotion h with ⟨-, -, hresult | ⟨_, hresult⟩⟩ | ⟨-, -, -, _, _, _, hresult⟩ |
    ⟨-, -, ⟨hresult, -⟩ | ⟨-, hclaim, -⟩⟩
  · cases hresult
  · cases hresult
  · cases hresult
  · cases hresult
  · exact holds_of_claimOf hclaim

/-- **Nobody else is granted the claim** until it ends. -/
theorem claimed_by_nobody_else {t t₁ t₂ : ImportTables} (hinv : ClaimInv t.promotion)
    (hclaim : claimImportedEmail emailId legacyId token now expiresAt identitySource rawSha256 t =
      .ok (.claimed, t₁)) {later : List ImportCall}
    (hlater : Runs.Along (importStep sha256Hex) (fun t call => ¬ EndsClaim emailId token t call) t₁
      later) {legacyId' : String} {now' expiresAt' : ℤ} {identitySource' : ImportIdentitySource}
    {rawSha256' : Option String}
    (hkeeps : ¬ EndsClaim emailId token (Runs.run (importStep sha256Hex) t₁ later)
      (.claim emailId legacyId' token' now' expiresAt' identitySource' rawSha256'))
    (hclaim' : claimImportedEmail emailId legacyId' token' now' expiresAt' identitySource'
      rawSha256' (Runs.run (importStep sha256Hex) t₁ later) = .ok (.claimed, t₂)) :
    token' = token := by
  have hstep : importStep sha256Hex t (.claim emailId legacyId token now expiresAt identitySource
      rawSha256) = t₁ := by
    simp only [importStep, importCallTables, hclaim, ok_bind]
    rfl
  have hinv₁ : ClaimInv t₁.promotion := hstep ▸ importStep_inv hinv _
  have hheld : ∀ (t : ImportTables) (call : ImportCall),
      ClaimInv t.promotion ∧ Holds t.promotion emailId token → ¬ EndsClaim emailId token t call →
        ClaimInv (importStep sha256Hex t call).promotion ∧
          Holds (importStep sha256Hex t call).promotion emailId token :=
    fun _ call h hkeeps => ⟨importStep_inv h.1 call, h.2.importStep hkeeps⟩
  have hrun := Runs.run_invariant_of_along hheld ⟨hinv₁, holds_of_claimed hclaim⟩ later hlater
  have hstep' : importStep sha256Hex (Runs.run (importStep sha256Hex) t₁ later)
      (.claim emailId legacyId' token' now' expiresAt' identitySource' rawSha256') = t₂ := by
    simp only [importStep, importCallTables, hclaim', ok_bind]
    rfl
  have hkept : Holds t₂.promotion emailId token := hstep' ▸ hrun.2.importStep hkeeps
  have hinv₂ : ClaimInv t₂.promotion := hstep' ▸ importStep_inv hrun.1 _
  exact hkept.unique hinv₂.keys (holds_of_claimed hclaim')

section

variable {t t' : ImportTables}
  (h : claimImportedEmail emailId legacyId token now expiresAt identitySource rawSha256 t =
    .ok (result, t'))
include h

/-- **A reserved id** is claimed, or found, for its digest only. -/
theorem claim_agrees_with_evidence (hresult : ∀ id, result ≠ .identityConflict id)
    {id digest : String} (hid : id = emailId ∨ id = legacyId)
    (hdigest : t.evidence id = some digest) :
    identitySource = .rawSha256 ∧ rawSha256 = some digest := by
  have hnone : conflictingEvidence t emailId legacyId identitySource rawSha256 = none := by
    cases hconflict : conflictingEvidence t emailId legacyId identitySource rawSha256 with
    | none => rfl
    | some candidateId =>
        simp only [claimImportedEmail, hconflict] at h
        exact absurd (Prod.mk.inj (Except.ok.inj h)).1.symm (hresult candidateId)
  have hmem : id ∈ candidateIds emailId legacyId := by
    rw [candidateIds]
    split <;> simp_all
  have hagrees := List.find?_eq_none.mp hnone id hmem
  simp only [hdigest, Option.any_some, Bool.or_eq_true, decide_eq_true_eq, not_or,
    Decidable.not_not] at hagrees
  exact ⟨hagrees.1, hagrees.2.symm⟩

/-- **A call that grants no claim** makes none. -/
theorem claims_of_refused (hresult : result ≠ .claimed) :
    ∀ claim ∈ t'.promotion.claims, claim ∈ t.promotion.claims := by
  have hends : ∀ other, ∀ claim ∈ (endClaim other t.promotion).claims,
      claim ∈ t.promotion.claims := by
    intro other claim hmem
    rw [endClaim] at hmem
    split at hmem <;> exact (Table.mem_deleteWhere.mp hmem).1
  have hexpired : ∀ claim ∈ (endExpiredClaim emailId now t.promotion).claims,
      claim ∈ t.promotion.claims := by
    intro claim hmem
    rw [endExpiredClaim] at hmem
    split at hmem
    all_goals
      split at hmem
      · exact hmem
      · exact (Table.mem_deleteWhere.mp hmem).1
  rcases claim_promotion h with ⟨hsame, -⟩ | ⟨hended, -⟩ | ⟨hinserted, -, ⟨-, -, hother⟩ | ⟨rfl, -⟩⟩
  · rw [hsame]
    exact fun _ hmem => hmem
  · rw [hended]
    exact hends emailId
  · rw [hinserted] at hother ⊢
    rw [insertClaim] at hother ⊢
    split at hother
    · rename_i hnew
      obtain ⟨hnew, -⟩ := Bool.and_eq_true_iff.mp hnew
      refine absurd ?_ hother
      have hfirst : (endExpiredClaim emailId now t.promotion).claims.find?
          (fun claim => claim.messageId = emailId) = none :=
        List.find?_eq_none.mpr fun claim hmem => by
          simpa using of_decide_eq_true (List.all_eq_true.mp hnew claim hmem)
      rw [PromotionTables.claimOf, List.find?_append, hfirst]
      simp
    · rename_i hold
      rw [if_neg hold]
      exact hexpired
  · exact absurd rfl hresult

end

/-- **Import identity is exclusive**, after any operations at any clock readings:

* a message has one claim at most;
* who was granted the claim of a message keeps others out until the claim ends;
* a reserved id is claimed, or found, for its digest only, and the digest never changes;
* a call that does not grant the claim makes none;
* an intent that is not sealed belongs to the claim of its message, and one that is sealed and not
  settled carries the proof that the clean-up finds it by. -/
theorem import_identity_exclusive (sha256Hex : String → String) (calls : List ImportCall) :
    ((importRun sha256Hex calls).promotion.claims.map ImportGenerationClaim.messageId).Nodup ∧
    (∀ emailId legacyId token now expiresAt identitySource rawSha256 t₁,
      claimImportedEmail emailId legacyId token now expiresAt identitySource rawSha256
        (importRun sha256Hex calls) = .ok (.claimed, t₁) →
      ∀ later, Runs.Along (importStep sha256Hex) (fun t call => ¬ EndsClaim emailId token t call)
        t₁ later →
      ∀ legacyId' token' now' expiresAt' identitySource' rawSha256' t₂,
        ¬ EndsClaim emailId token (Runs.run (importStep sha256Hex) t₁ later)
          (.claim emailId legacyId' token' now' expiresAt' identitySource' rawSha256') →
        claimImportedEmail emailId legacyId' token' now' expiresAt' identitySource' rawSha256'
          (Runs.run (importStep sha256Hex) t₁ later) = .ok (.claimed, t₂) → token' = token) ∧
    (∀ emailId legacyId token now expiresAt identitySource rawSha256 result t₁,
      claimImportedEmail emailId legacyId token now expiresAt identitySource rawSha256
        (importRun sha256Hex calls) = .ok (result, t₁) →
      ((∀ id, result ≠ .identityConflict id) → ∀ id, id = emailId ∨ id = legacyId → ∀ digest,
        (importRun sha256Hex calls).evidence id = some digest →
          identitySource = .rawSha256 ∧ rawSha256 = some digest) ∧
      (result ≠ .claimed → ∀ claim ∈ t₁.promotion.claims,
        claim ∈ (importRun sha256Hex calls).promotion.claims)) ∧
    (∀ id digest, (importRun sha256Hex calls).evidence id = some digest → ∀ later,
      (importRun sha256Hex (calls ++ later)).evidence id = some digest) ∧
    ∀ row ∈ (importRun sha256Hex calls).promotion.intents,
      (row.state = .staging → Holds (importRun sha256Hex calls).promotion row.identity.emailId
        row.identity.claimToken) ∧
      (row.state.sealed = true → row.proofFingerprint.isSome = true) := by
  have hinv := importRun_inv sha256Hex calls
  refine ⟨hinv.keys, ?_, ?_, ?_, fun row hrow => ⟨hinv.staging row hrow, hinv.proofs row hrow⟩⟩
  · intro emailId legacyId token now expiresAt identitySource rawSha256 t₁ hclaim later hlater
      legacyId' token' now' expiresAt' identitySource' rawSha256' t₂ hkeeps hclaim'
    exact claimed_by_nobody_else hinv hclaim hlater hkeeps hclaim'
  · intro emailId legacyId token now expiresAt identitySource rawSha256 result t₁ hclaim
    exact ⟨fun hresult id hid digest => claim_agrees_with_evidence hclaim hresult hid,
      claims_of_refused hclaim⟩
  · intro id digest hdigest later
    rw [importRun, Runs.run_append]
    have hstep : ∀ (t : ImportTables) (call : ImportCall), t.evidence id = some digest →
        (importStep sha256Hex t call).evidence id = some digest :=
      fun _ call h => evidence_importStep h call
    exact Runs.run_invariant hstep hdigest later

/-! ### How else a claim ends -/

def sampleId : String := "0123456789abcdef0123456789abcdef"

def firstToken : String := "00000000-0000-4000-8000-000000000001"

def secondToken : String := "00000000-0000-4000-8000-000000000002"

/-- A digest of the right form. -/
def sampleDigest (_ : String) : String :=
  "0000000000000000000000000000000000000000000000000000000000000000"

/-- The claim of the sample message, at some time. -/
def sampleClaim (token legacyId : String) (now : ℤ) : ImportCall :=
  .claim sampleId legacyId token now 100 .messageId none

/-- A promotion without objects, up to its seal. -/
def sealedCalls : List ImportCall :=
  [sampleClaim firstToken sampleId 0, .beginIntent ⟨sampleId, firstToken⟩ 0 0 0,
    .sealIntent ⟨sampleId, firstToken⟩ 0]

/-- What a claim of the sample message answers. -/
def sampleAnswer (calls : List ImportCall) (token legacyId : String) (now : ℤ) :
    Option ImportEmailClaimResult :=
  (claimImportedEmail sampleId legacyId token now 100 .messageId none
    (importRun sampleDigest calls)).toOption.map Prod.fst

/-- **Claims end early**, at a time when they have not expired and nobody has released them: a
sealed intent stays without its claim when the message is found; a claim that finds another message
under the earlier id ends the one that is held; and a promotion that is settled ends its claim. -/
theorem claim_ends_early :
    (((importRun sampleDigest (sealedCalls ++ [.insertEmail sampleId "inbox",
        sampleClaim secondToken sampleId 1])).promotion.intents.map IntentRow.state = [.recorded]) ∧
      (importRun sampleDigest (sealedCalls ++ [.insertEmail sampleId "inbox",
        sampleClaim secondToken sampleId 1])).promotion.claims = []) ∧
    (sampleAnswer [] firstToken sampleId 0 = some .claimed ∧
      sampleAnswer [sampleClaim firstToken sampleId 0, .insertEmail "legacy" "inbox",
        sampleClaim secondToken "legacy" 1] secondToken sampleId 1 = some .claimed) ∧
    sampleAnswer (sealedCalls ++ [.startReconcile ⟨sampleId, firstToken⟩ (sampleDigest ""),
      .endReconcile ⟨sampleId, firstToken⟩ (.pending true),
      .startReconcile ⟨sampleId, firstToken⟩ (sampleDigest ""),
      .endReconcile ⟨sampleId, firstToken⟩ .finalized]) secondToken sampleId 1 =
        some .claimed := by
  decide +kernel

end MailPortal.Import
