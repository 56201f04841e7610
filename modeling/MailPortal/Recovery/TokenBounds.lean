import MailPortal.Recovery.System

/-!
# The Tokens that Exist

A user has one open token at most: an issue spends the earlier ones before it adds its own. In no
quarter of an hour are there more than three tokens of a user: the condition of an issue counts
those that are younger than a quarter of an hour, without an upper end, so that it counts more than
any window that the new token lies in.

Main results:

* `tokenStep_tablesAfter` : what an event does to the tokens.
* `recovery_atomic` : the tokens of every reachable state, and what a call does there.
-/

namespace MailPortal.Recovery

open Failure Table Runs

variable {lease : Option RequestLease} {token : RecoveryToken}

/-- The token was issued to the user in the window that ends at `instant`. -/
def RecoveryToken.issuedWithin (token : RecoveryToken) (userId : String) (instant : ℤ) : Bool :=
  decide (token.userId = userId) && decide (instant - ISSUE_WINDOW_MS < token.createdAt) &&
    decide (token.createdAt ≤ instant)

/-- **The invariant of the tokens.** -/
structure TokenInv (t : RecoveryTables) : Prop where
  tokenIds : (t.tokens.map RecoveryToken.id).Nodup
  userIds : (t.users.map User.id).Nodup
  jobIds : (t.jobs.map RequestJob.id).Nodup
  oneOpen : ∀ userId, t.tokens.countP (fun token => token.openOf userId) ≤ 1
  rate : ∀ userId instant, t.tokens.countP (fun token => token.issuedWithin userId instant) ≤ 3

/-- What an event that draws `nonces` does to the tokens. -/
structure TokenStep (nonces : List String) (t t' : RecoveryTables) : Prop where
  inv : TokenInv t → TokenInv t'
  kept : TokensOf t t'
  nonce : ∀ token ∈ t'.tokens, ∀ nonce, token.consumptionNonce = some nonce →
    nonce ∈ nonces ∨ ∃ old ∈ t.tokens, old.consumptionNonce = some nonce
  consumed : ∀ token ∈ t.tokens, token.consumedAt ≠ none → token ∈ t'.tokens

variable {t t' : RecoveryTables} {nonces : List String}

/-! ### Events that leave the tokens alone -/

theorem TokensOf.of_eq (h : t'.tokens = t.tokens) : TokensOf t t' := by
  intro token htoken
  rw [← h] at htoken
  exact ⟨token, htoken, rfl, rfl, rfl, rfl⟩

/-- The tokens are the same, and the keys of the others stay distinct. -/
theorem TokenStep.of_eq (htokens : t'.tokens = t.tokens)
    (husers : (t.users.map User.id).Nodup → (t'.users.map User.id).Nodup)
    (hjobs : (t.jobs.map RequestJob.id).Nodup → (t'.jobs.map RequestJob.id).Nodup) :
    TokenStep [] t t' where
  inv h := by
    refine ⟨?_, husers h.userIds, hjobs h.jobIds, ?_, ?_⟩
    · rw [htokens]
      exact h.tokenIds
    · rw [htokens]
      exact h.oneOpen
    · rw [htokens]
      exact h.rate
  kept := .of_eq htokens
  nonce token htoken nonce hnonce := .inr ⟨token, htokens ▸ htoken, hnonce⟩
  consumed token htoken _ := htokens ▸ htoken

theorem TokenStep.refl : TokenStep [] t t := .of_eq rfl id id

/-! ### Issue -/

variable {record : CredentialRecoveryIssue} {draw : IssueDraw}

/-- After an issue its user has no open token but the new one. -/
theorem countP_open_withConsumed (tokens : List RecoveryToken) :
    (withConsumed record tokens).countP (fun token => token.openOf record.userId) = 0 := by
  refine List.countP_eq_zero.mpr fun token htoken hopen => ?_
  rcases mem_updateWhere.mp htoken with ⟨old, -, -, rfl⟩ | ⟨-, hp⟩
  · simp [RecoveryToken.openOf] at hopen
  · rw [hp] at hopen
    cases hopen

theorem countP_open_withConsumed_le (userId : String) (tokens : List RecoveryToken) :
    (withConsumed record tokens).countP (fun token => token.openOf userId) ≤
      tokens.countP fun token => token.openOf userId :=
  countP_updateWhere_le fun token _ hopen => by simp [RecoveryToken.openOf] at hopen

theorem countP_issuedWithin_withConsumed (userId : String) (instant : ℤ)
    (tokens : List RecoveryToken) :
    (withConsumed record tokens).countP (fun token => token.issuedWithin userId instant) =
      tokens.countP fun token => token.issuedWithin userId instant :=
  countP_updateWhere fun _ => rfl

/-- **Of a window that the new token lies in,** the condition has counted all the others. -/
theorem countP_issuedWithin_le (hcondition : issueCondition record lease t = true)
    (hnew : tokenExists record.id t = false) {instant : ℤ} (hinstant : record.createdAt ≤ instant) :
    t.tokens.countP (fun token => token.issuedWithin record.userId instant) ≤ 2 := by
  have hrecent : (recentTokens record t).length < 3 := by
    simp only [issueCondition, hnew, Bool.or_false, Bool.and_eq_true, decide_eq_true_eq]
      at hcondition
    exact hcondition.2
  have hle : t.tokens.countP (fun token => token.issuedWithin record.userId instant) ≤
      (recentTokens record t).length := by
    rw [recentTokens, ← List.countP_eq_length_filter]
    refine List.countP_mono_left fun token _ h => ?_
    simp only [RecoveryToken.issuedWithin, Bool.and_eq_true, decide_eq_true_eq] at h ⊢
    exact ⟨h.1.1, by omega⟩
  omega

theorem tokenInv_issuedTables (h : TokenInv t) (hcondition : issueCondition record lease t = true)
    (hnames : Insertable record draw t) : TokenInv (issuedTables record draw t) := by
  have hids : (withConsumed record t.tokens).map RecoveryToken.id =
      t.tokens.map RecoveryToken.id := map_key_updateWhere fun _ => rfl
  refine ⟨?_, h.userIds, h.jobIds, fun userId => ?_, fun userId instant => ?_⟩
  · simp only [issuedTables, List.map_append, List.map_singleton, hids]
    refine List.nodup_append.mpr ⟨h.tokenIds, List.nodup_singleton _, fun a ha b hb => ?_⟩
    obtain ⟨token, htoken, rfl⟩ := List.mem_map.mp ha
    rw [List.mem_singleton.mp hb]
    have hne := List.any_eq_false.mp hnames.tokenId token htoken
    rwa [decide_eq_true_eq] at hne
  · simp only [issuedTables, List.countP_append, List.countP_singleton]
    by_cases huser : userId = record.userId
    · rw [huser, countP_open_withConsumed]
      split <;> omega
    · have hother : (issuedToken record).openOf userId = false := by
        simp [RecoveryToken.openOf, issuedToken, Ne.symm huser]
      rw [hother]
      exact (countP_open_withConsumed_le userId t.tokens).trans (h.oneOpen userId)
  · simp only [issuedTables, List.countP_append, List.countP_singleton,
      countP_issuedWithin_withConsumed]
    have hrate := h.rate userId instant
    cases hwithin : (issuedToken record).issuedWithin userId instant with
    | false =>
        rw [if_neg Bool.false_ne_true]
        exact hrate
    | true =>
        simp only [RecoveryToken.issuedWithin, Bool.and_eq_true, decide_eq_true_eq] at hwithin
        obtain ⟨⟨huser, -⟩, hinstant⟩ := hwithin
        obtain rfl : record.userId = userId := huser
        have hcount := countP_issuedWithin_le hcondition hnames.tokenId hinstant
        rw [if_pos rfl]
        omega

theorem tokenStep_issue (lease : Option RequestLease) (mailOrigin : String) (url : RecoveryUrl)
    (expiresAt : ℤ) :
    TokenStep [] t (issueTables record lease draw mailOrigin url expiresAt t) := by
  obtain ⟨jobs, hids, hsame | ⟨hnames, hcondition, hissued⟩⟩ :=
    @issueTables_cases record lease draw t mailOrigin url expiresAt
  · rw [hsame]
    refine .of_eq rfl id fun h => ?_
    rw [hids]
    exact h
  · rw [hissued]
    refine ⟨fun h => ?_, ?_, ?_, ?_⟩
    · have hinv := tokenInv_issuedTables h hcondition hnames
      refine ⟨hinv.tokenIds, hinv.userIds, ?_, hinv.oneOpen, hinv.rate⟩
      rw [hids]
      exact h.jobIds
    · intro token htoken
      cases hopen : token.openOf record.userId with
      | true =>
          exact ⟨{ token with consumedAt := some record.createdAt }, List.mem_append_left _
            (mem_updateWhere.mpr (.inl ⟨token, htoken, hopen, rfl⟩)), rfl, rfl, rfl, rfl⟩
      | false =>
          exact ⟨token, List.mem_append_left _ (mem_updateWhere.mpr (.inr ⟨htoken, hopen⟩)),
            rfl, rfl, rfl, rfl⟩
    · intro token htoken nonce hnonce
      rcases List.mem_append.mp htoken with hold | hnew
      · rcases mem_updateWhere.mp hold with ⟨old, hmem, -, rfl⟩ | ⟨hmem, -⟩
        · exact .inr ⟨old, hmem, hnonce⟩
        · exact .inr ⟨token, hmem, hnonce⟩
      · rw [List.mem_singleton.mp hnew] at hnonce
        cases hnonce
    · intro token htoken hconsumed
      refine List.mem_append_left _ (mem_updateWhere.mpr (.inr ⟨htoken, ?_⟩))
      have hsome : token.consumedAt.isNone = false :=
        Option.isNone_eq_false_iff.mpr (Option.isSome_iff_ne_none.mpr hconsumed)
      rw [RecoveryToken.openOf, hsome, Bool.and_false]

/-! ### Consume -/

variable {input : ConsumeInput} {nonce auditId : String}

theorem consumedAt_of_spends {record : FoundToken} (h : spends record input t token = true) :
    token.consumedAt = none := by
  simp only [spends, RecoveryToken.spendable, Bool.and_eq_true, Option.isNone_iff_eq_none] at h
  exact h.2.1.1

/-- The tables after the batch have the tokens that its first statement leaves. -/
theorem tokenStep_spent (record : FoundToken)
    (htokens : t'.tokens = (spendToken record input nonce t).2.tokens)
    (husers : t'.users.map User.id = t.users.map User.id) (hjobs : t'.jobs = t.jobs) :
    TokenStep [nonce] t t' where
  inv h := by
    have hids : (spendToken record input nonce t).2.tokens.map RecoveryToken.id =
        t.tokens.map RecoveryToken.id := map_key_updateWhere fun _ => rfl
    refine ⟨?_, ?_, ?_, fun userId => ?_, fun userId instant => ?_⟩
    · rw [htokens, hids]
      exact h.tokenIds
    · rw [husers]
      exact h.userIds
    · rw [hjobs]
      exact h.jobIds
    · rw [htokens]
      refine le_trans (countP_updateWhere_le fun token _ hopen => ?_) (h.oneOpen userId)
      simp [RecoveryToken.openOf, RecoveryToken.spent] at hopen
    · have hsame : ∀ token : RecoveryToken,
          (token.spent input.now nonce).issuedWithin userId instant =
            token.issuedWithin userId instant := fun _ => rfl
      rw [htokens, spendToken, countP_updateWhere hsame]
      exact h.rate userId instant
  kept token htoken := by
    rw [htokens]
    cases hspends : spends record input t token with
    | true =>
        exact ⟨token.spent input.now nonce,
          mem_updateWhere.mpr (.inl ⟨token, htoken, hspends, rfl⟩), rfl, rfl, rfl, rfl⟩
    | false =>
        exact ⟨token, mem_updateWhere.mpr (.inr ⟨htoken, hspends⟩), rfl, rfl, rfl, rfl⟩
  nonce token htoken nonce' hnonce := by
    rw [htokens] at htoken
    rcases mem_updateWhere.mp htoken with ⟨old, -, -, rfl⟩ | ⟨hold, -⟩
    · exact .inl (List.mem_singleton.mpr (Option.some.inj hnonce).symm)
    · exact .inr ⟨token, hold, hnonce⟩
  consumed token htoken hconsumed := by
    rw [htokens]
    refine mem_updateWhere.mpr (.inr ⟨htoken, ?_⟩)
    rw [← Bool.not_eq_true]
    exact fun hspends => hconsumed (consumedAt_of_spends hspends)

theorem TokenStep.weaken (h : TokenStep [] t t') : TokenStep nonces t t' where
  inv := h.inv
  kept := h.kept
  nonce token htoken nonce hnonce := by
    rcases h.nonce token htoken nonce hnonce with hnew | hold
    · cases hnew
    · exact .inr hold
  consumed := h.consumed

theorem tokenStep_consumeFound (record : FoundToken) :
    TokenStep [nonce] t (committed t (consumeFound record input nonce auditId t)) := by
  rcases consumeFound_cases record input nonce auditId t with hsame | ⟨audit, hspent⟩
  · rw [hsame]
    exact TokenStep.refl.weaken
  · rw [hspent]
    exact tokenStep_spent record rfl (map_key_updateWhere fun _ => rfl) rfl

/-! ### Every event -/

/-- **What an event does to the tokens**, whatever its arguments. -/
theorem tokenStep_tablesAfter (past : List RecoveryTables) (t : RecoveryTables)
    (e : RecoveryEvent) : TokenStep e.nonces t (tablesAfter past t e) := by
  cases e with
  | setUsers users =>
      rw [tablesAfter]
      split
      · exact .of_eq rfl (fun _ => ‹_›) id
      · exact .refl
  | setJobs jobs =>
      rw [tablesAfter]
      split
      · exact .of_eq rfl id fun _ => ‹_›
      · exact .refl
  | setEnabled enabled => exact .of_eq rfl id id
  | issue record lease draw mailOrigin url expiresAt => exact tokenStep_issue _ _ _ _
  | consume input nonce auditId ago =>
      rw [tablesAfter, consume]
      cases findToken input ((t :: past)[ago]?.getD t) with
      | none => exact TokenStep.refl.weaken
      | some record => exact tokenStep_consumeFound record
  | lease id leaseToken now => exact .of_eq rfl (fun h => h) fun h => h
  | preflight delivery now seen =>
      rw [tablesAfter, preflightDelivery]
      split <;> exact .of_eq rfl id id
  | park id leaseToken errorCode now => exact .of_eq rfl (fun h => h) fun h => h
  | fence delivery payloadExpiresAt now =>
      rw [tablesAfter]
      cases hfence : fenceDispatch delivery payloadExpiresAt now t with
      | error e => exact .refl
      | ok result =>
          simp only [fenceDispatch, insertAttempts, bind_eq_ok, require_eq_ok, pure_eq_ok]
            at hfence
          obtain ⟨tables, ⟨-, -, rfl⟩, rfl⟩ := hfence
          exact .of_eq rfl id id
  | finishAtFence delivery payloadExpiresAt now seen =>
      rw [tablesAfter, finishAtFence]
      split <;> exact .of_eq rfl id id
  | accept id leaseToken messageId now =>
      rw [tablesAfter, markAccepted]
      split <;> exact .of_eq rfl (fun h => h) fun h => h
  | settle delivery fromState errorCode ambiguous now allowExpiredLease seen =>
      rw [tablesAfter, settleFailure]
      split <;> exact .of_eq rfl id id

/-- The invariant of the system: the tokens', that the past is a past, and that the nonces of the
tokens were drawn. -/
structure TokensInv (s : RecoverySystem) : Prop where
  tokens : TokenInv s.tables
  past : ∀ seen ∈ s.past, TokensOf seen s.tables
  drawn : ∀ token ∈ s.tables.tokens, ∀ nonce, token.consumptionNonce = some nonce →
    nonce ∈ s.drawn

theorem TokensOf.trans {t₁ t₂ t₃ : RecoveryTables} (h : TokensOf t₁ t₂) (h' : TokensOf t₂ t₃) :
    TokensOf t₁ t₃ := by
  intro token htoken
  obtain ⟨token', hmem, hid, huser, hpurpose, hhash⟩ := h token htoken
  obtain ⟨token'', hmem', hid', huser', hpurpose', hhash'⟩ := h' token' hmem
  exact ⟨token'', hmem', hid'.trans hid, huser'.trans huser, hpurpose'.trans hpurpose,
    hhash'.trans hhash⟩

theorem tokensInv_systemStep (s : RecoverySystem) (e : RecoveryEvent) (h : TokensInv s) :
    TokensInv (systemStep s e) := by
  have hstep := tokenStep_tablesAfter s.past s.tables e
  refine ⟨hstep.inv h.tokens, fun seen hseen => ?_, fun token htoken nonce hnonce => ?_⟩
  · rcases List.mem_cons.mp hseen with rfl | hseen
    · exact hstep.kept
    · exact (h.past seen hseen).trans hstep.kept
  · rcases hstep.nonce token htoken nonce hnonce with hnew | ⟨old, hold, hsame⟩
    · exact List.mem_append_right _ hnew
    · exact List.mem_append_left _ (h.drawn old hold nonce hsame)

theorem tokensInv_after (events : List RecoveryEvent) : TokensInv (after events) := by
  refine run_invariant tokensInv_systemStep ⟨⟨?_, ?_, ?_, ?_, ?_⟩, ?_, ?_⟩ events
  · exact List.nodup_nil
  · exact List.nodup_nil
  · exact List.nodup_nil
  · exact fun _ => Nat.zero_le 1
  · exact fun _ _ => Nat.zero_le 3
  · exact fun seen h => by cases h
  · exact fun token h => by cases h

/-- A token that is consumed stays as it is. -/
theorem consumed_run (hconsumed : token.consumedAt ≠ none) (s : RecoverySystem)
    (htoken : token ∈ s.tables.tokens) (events : List RecoveryEvent) :
    token ∈ (run systemStep s events).tables.tokens :=
  @run_invariant _ _ systemStep s (fun s => token ∈ s.tables.tokens)
    (fun s e h => (tokenStep_tablesAfter s.past s.tables e).consumed token h hconsumed)
    htoken events

/-- **Issue and consume are atomic and bounded.** In every state that is reached, a user has one
open token at most and three tokens at most in any quarter of an hour. There an issue does all of
its parts or leaves its request as its outcome says; a consumption with a new nonce, of a token that
was looked up now or earlier, does all of its parts or nothing; and a token that is consumed stays
as it is. -/
theorem recovery_atomic (events : List RecoveryEvent) :
    (∀ userId,
      (after events).tables.tokens.countP (fun token => token.openOf userId) ≤ 1) ∧
    (∀ userId instant, (after events).tables.tokens.countP
      (fun token => token.issuedWithin userId instant) ≤ 3) ∧
    (∀ record lease draw mailOrigin url expiresAt later,
      IssueResult record lease draw (targetValid record mailOrigin url expiresAt)
        (after events).tables
        (issue record lease draw mailOrigin url expiresAt later (after events).tables)
        (issueTables record lease draw mailOrigin url expiresAt (after events).tables)) ∧
    (∀ input nonce auditId, nonce ∉ (after events).drawn →
      ∀ seen ∈ (after events).tables :: (after events).past,
        ConsumeStep input nonce auditId (after events).tables
          (consume input nonce auditId seen (after events).tables)) ∧
    ∀ token ∈ (after events).tables.tokens, token.consumedAt ≠ none →
      ∀ more, token ∈ (after (events ++ more)).tables.tokens := by
  have hinv := tokensInv_after events
  refine ⟨hinv.tokens.oneOpen, hinv.tokens.rate, fun _ _ _ _ _ _ later =>
    issue_result hinv.tokens.jobIds later, fun input nonce auditId hnonce seen hseen => ?_,
    fun token htoken hconsumed more => ?_⟩
  · refine consume_result hinv.tokens.tokenIds hinv.tokens.userIds ?_ ?_
    · exact fun token htoken hsame => hnonce (hinv.drawn token htoken nonce hsame)
    · rcases List.mem_cons.mp hseen with rfl | hseen
      · exact .of_eq rfl
      · exact hinv.past seen hseen
  · rw [after, run_append]
    exact consumed_run hconsumed _ htoken more

end MailPortal.Recovery
