import MailPortal.Drafts.SaveInvariant

/-!
# Draft Saves Lose no Update

A save is committed at the version that its claim expects, and raises it by one. Versions of a
draft grow until the draft is removed; so two saves that expect one version are not both committed,
unless the draft was removed and made anew between them. A claim that was ended stays ended, since
tokens are drawn once. The row of a committed save answers for its key until a claim finds that it
was not touched for the time that a client may ask again.

Main results:

* `draft_saves_lose_no_update` : all of this, in every run.
* `save_committed_twice` : a save that is committed a second time, later on.
-/

namespace MailPortal.Drafts

open Failure Runs Table

variable {t t' : DraftTables}
variable {call : DraftCall} {write : DraftWrite} {id token draftId k : String}
  {later : List DraftCall} {row : DraftSaveOperation} {drawn : List String} {expectedVersion : ℕ}
  {now : ℤ}
variable {claim : SaveClaim} {version : ℕ} {call' : DraftCall} {input : ClaimInput}
  {emails : List EmailRow}

/-- The tables after some operations on a mailbox without saves. -/
def draftRun (emails : List EmailRow) (attachments : List AttachmentRow)
    (bodyObjectKeys : List String) (calls : List DraftCall) : DraftTables :=
  run draftStep (.init emails attachments bodyObjectKeys) calls

/-! ### A commit -/

theorem save_commitSave (claim : SaveClaim) (draftVersion : ℕ) (now : ℤ) (k : String) :
    (commitSave (some claim) draftVersion now t).save k = (t.save k).map fun row =>
      if row.claimedBy claim.saveKey claim.fingerprint claim.claimToken then { row with
        state := .committed, committedVersion := some draftVersion, updatedAt := now }
      else row := by
  rw [DraftTables.save, commitSave, lookup_updateWhere]
  · rfl
  · exact fun _ => rfl

/-- **A save is committed** for a claim that stands, and its row says so. -/
theorem commit_of_write (hwrite : draftWrite t call = some write)
    (hclaim : write.claim = some claim) :
    ∃ row now, t.save claim.saveKey = some row ∧
      row.claimedBy claim.saveKey claim.fingerprint claim.claimToken = true ∧
      row.draftId = write.draftId ∧ row.expectedVersion = write.expectedVersion.getD 0 ∧
      (draftStep t call).save claim.saveKey = some { row with
        state := .committed, committedVersion := some write.version, updatedAt := now } := by
  obtain ⟨input, attachments, now, rfl, heq, hwritten⟩ := draftWrite_cases hwrite
  rw [heq] at hclaim ⊢
  obtain ⟨row, hsave, hclaimed, hdraft, hversion⟩ :=
    claimStands_of_refuseClaim hwritten.claim hclaim
  refine ⟨row, now, hsave, hclaimed, hdraft, hversion, ?_⟩
  have hsaves := hwritten.saves
  rw [show input.saveClaim = some claim from hclaim] at hsaves
  rw [DraftTables.save, hsaves, ← DraftTables.save, save_commitSave, hsave, Option.map_some,
    if_pos hclaimed]

/-- A write is of the version that is stored, and raises it by one. -/
theorem version_of_write (hwrite : draftWrite t call = some write) :
    t.versionOf write.draftId = write.expectedVersion ∧
      write.version = write.expectedVersion.getD 0 + 1 ∧
      (draftStep t call).versionOf write.draftId = some write.version ∧
      ∀ id, id ≠ write.draftId → (draftStep t call).versionOf id = t.versionOf id := by
  obtain ⟨input, attachments, now, rfl, heq, hwritten⟩ := draftWrite_cases hwrite
  have hdraft : write.draftId = input.id := by rw [heq]
  have hexpected : write.expectedVersion = input.expectedVersion := by rw [heq]
  rw [hdraft, hexpected]
  refine ⟨hwritten.stored, hwritten.version, hwritten.after, fun id hid => ?_⟩
  rw [DraftTables.versionOf, DraftTables.versionOf, hwritten.email_of_ne hid]

/-! ### Versions grow -/

/-- A draft that stays has a version that does not fall. -/
theorem version_le_step (hinv : DraftInv t) (hversion : ∃ n, t.versionOf id = some n ∧ version ≤ n)
    (hkeeps : removesDraft t id call = false) :
    ∃ n, (draftStep t call).versionOf id = some n ∧ version ≤ n := by
  obtain ⟨n, hn, hle⟩ := hversion
  have hchange := versionChange_step hinv.ids call id
  rw [hn] at hchange
  generalize (draftStep t call).versionOf id = after at hchange
  generalize hbefore : some n = before at hchange
  cases hchange with
  | kept => exact ⟨n, hbefore.symm, hle⟩
  | written hwrite hid hnext =>
      rw [← hbefore, Option.getD_some] at hnext
      exact ⟨_, rfl, by omega⟩
  | removed hremoves =>
      rw [hkeeps] at hremoves
      cases hremoves

/-- **Versions grow** until the draft is removed. -/
theorem version_le_run (hinv : DraftInv t) (hversion : t.versionOf id = some version)
    (hkeeps : Along draftStep (fun t call => removesDraft t id call = false) t later) :
    ∃ n, (run draftStep t later).versionOf id = some n ∧ version ≤ n := by
  have hstep : ∀ t call, (DraftInv t ∧ ∃ n, t.versionOf id = some n ∧ version ≤ n) →
      removesDraft t id call = false → DraftInv (draftStep t call) ∧
        ∃ n, (draftStep t call).versionOf id = some n ∧ version ≤ n :=
    fun _ call h hkeeps => ⟨draftStep_inv h.1 call, version_le_step h.1 h.2 hkeeps⟩
  exact (run_invariant_of_along hstep ⟨hinv, version, hversion, le_rfl⟩ later hkeeps).2

/-- **A later write** of a draft that stays expects a later version. -/
theorem lt_of_later_write (hinv : DraftInv t) {write' : DraftWrite}
    (hwrite : draftWrite t call = some write)
    (hkeeps : Along draftStep (fun t call => removesDraft t write.draftId call = false)
      (draftStep t call) later)
    (hwrite' : draftWrite (run draftStep (draftStep t call) later) call' = some write')
    (hdraft : write'.draftId = write.draftId) :
    write.expectedVersion.getD 0 < write'.expectedVersion.getD 0 := by
  obtain ⟨-, hversion, hafter, -⟩ := version_of_write hwrite
  obtain ⟨n, hn, hle⟩ := version_le_run (draftStep_inv hinv call) hafter hkeeps
  have hstored := (version_of_write hwrite').1
  rw [hdraft, hn] at hstored
  rw [← hstored, Option.getD_some]
  omega

/-! ### Tokens -/

/-- The token that a call draws. -/
def claimTokens : DraftCall → List String
  | .claim input _ => [input.claimToken]
  | _ => []

/-- A claim stands under the token. -/
def ClaimedUnder (t : DraftTables) (token : String) : Prop :=
  ∃ row ∈ t.saves, row.state = .claimed ∧ row.claimToken = some token

/-- The token of a row was there, under the same key, or was just drawn. -/
theorem RowChange.claimToken {old : Option DraftSaveOperation}
    (h : RowChange t call old (some row)) :
    (∃ row₀, old = some row₀ ∧ row₀.claimToken = row.claimToken) ∨
      ∃ input now, call = .claim input now ∧ row = input.row now := by
  cases h with
  | kept => exact .inl ⟨row, rfl, rfl⟩
  | granted hcall => exact .inr ⟨_, _, hcall, rfl⟩
  | recorded => exact .inl ⟨_, rfl, rfl⟩
  | ended => exact .inl ⟨_, rfl, rfl⟩
  | refreshed => exact .inl ⟨_, rfl, rfl⟩
  | committed => exact .inl ⟨_, rfl, rfl⟩

/-- Tokens that were drawn, and belong to one key each. -/
structure TokensOf (t : DraftTables) (drawn : List String) : Prop where
  drawn : ∀ row ∈ t.saves, ∀ token, row.claimToken = some token → token ∈ drawn
  one : ∀ row ∈ t.saves, ∀ row' ∈ t.saves, ∀ token, row.claimToken = some token →
    row'.claimToken = some token → row = row'

theorem TokensOf.step (h : TokensOf t drawn) (hinv : DraftInv t)
    (hfresh : (drawn ++ claimTokens call).Nodup) :
    TokensOf (draftStep t call) (drawn ++ claimTokens call) := by
  have hkeys := keys_step hinv.keys call
  -- A row kept its token under its key, or was granted with the token of this call.
  have horigin : ∀ row ∈ (draftStep t call).saves, ∀ token, row.claimToken = some token →
      (∃ row₀ ∈ t.saves, row₀.saveKey = row.saveKey ∧ row₀.claimToken = some token) ∨
        ∃ input now, call = .claim input now ∧ row.saveKey = input.saveKey ∧
          token = input.claimToken := by
    intro row hrow token htoken
    have hchange := rowChange_step hinv.keys call row.saveKey
    rw [(save_iff hkeys).mpr ⟨hrow, rfl⟩] at hchange
    rcases hchange.claimToken with ⟨row₀, hold, hsame⟩ | ⟨input, now, hcall, rfl⟩
    · obtain ⟨hmem, hkey⟩ := (save_iff hinv.keys).mp hold
      exact .inl ⟨row₀, hmem, hkey, hsame.trans htoken⟩
    · exact .inr ⟨input, now, hcall, rfl, (Option.some.inj htoken).symm⟩
  have hnew : ∀ input now token, call = .claim input now → token = input.claimToken →
      token ∉ drawn := by
    rintro input now token rfl rfl hmem
    exact List.disjoint_of_nodup_append hfresh hmem (by simp [claimTokens])
  constructor
  · intro row hrow token htoken
    rcases horigin row hrow token htoken with ⟨row₀, hmem, -, hsame⟩ | ⟨input, now, rfl, -, rfl⟩
    · exact List.mem_append_left _ (h.drawn row₀ hmem token hsame)
    · exact List.mem_append_right _ (by simp [claimTokens])
  · intro row hrow row' hrow' token htoken htoken'
    refine eq_of_key_eq hkeys hrow hrow' ?_
    rcases horigin row hrow token htoken with
      ⟨row₀, hmem, hkey, hsame⟩ | ⟨input, now, hcall, hkey, heq⟩
    · rcases horigin row' hrow' token htoken' with
        ⟨row₀', hmem', hkey', hsame'⟩ | ⟨input, now, hcall, hkey', heq⟩
      · rw [← hkey, ← hkey', h.one row₀ hmem row₀' hmem' token hsame hsame']
      · exact absurd (h.drawn row₀ hmem token hsame) (hnew input now token hcall heq)
    · rcases horigin row' hrow' token htoken' with
        ⟨row₀', hmem', hkey', hsame'⟩ | ⟨input', now', hcall', hkey', heq'⟩
      · exact absurd (h.drawn row₀' hmem' token hsame') (hnew input now token hcall heq)
      · obtain ⟨rfl, -⟩ := DraftCall.claim.inj (hcall.symm.trans hcall')
        rw [hkey, hkey']

/-- A token that no claim stands under, and that is not drawn, stays so. -/
theorem not_claimedUnder_step (hinv : DraftInv t) (h : ¬ ClaimedUnder t token)
    (hfresh : token ∉ claimTokens call) : ¬ ClaimedUnder (draftStep t call) token := by
  rintro ⟨row, hrow, hclaimed, htoken⟩
  have hchange := rowChange_step hinv.keys call row.saveKey
  rw [(save_iff (keys_step hinv.keys call)).mpr ⟨hrow, rfl⟩] at hchange
  rcases hchange.of_claimed hclaimed with
    ⟨row₀, hold, hstate, -, -, -, hsame⟩ | ⟨input, now, stale, rfl, -, rfl⟩
  · exact h ⟨row₀, ((save_iff hinv.keys).mp hold).1, hstate, hsame.trans htoken⟩
  · exact hfresh (by simpa [claimTokens, ClaimInput.row] using htoken.symm)

theorem not_claimedUnder_run (hinv : DraftInv t) (h : ¬ ClaimedUnder t token)
    (hfresh : token ∉ later.flatMap claimTokens) :
    ¬ ClaimedUnder (run draftStep t later) token := by
  induction later generalizing t with
  | nil => exact h
  | cons call later ih =>
      rw [List.flatMap_cons, List.mem_append, not_or] at hfresh
      exact ih (draftStep_inv hinv call) (not_claimedUnder_step hinv h hfresh.1) hfresh.2

/-! ### Ends of a claim -/

/-- The claims that a claim for a version ends. -/
def overdueClaims (draftId : String) (expectedVersion : ℕ) (now : ℤ)
    (saves : List DraftSaveOperation) : List DraftSaveOperation :=
  saves.filter fun row =>
    row.claims draftId expectedVersion && decide (row.claimExpiresAt ≤ now)

/-- A claim is not pruned. -/
theorem mem_pruneRetired (hinv : DraftInv t) (hrow : row ∈ t.saves)
    (hclaimed : row.state = .claimed) (now : ℤ) : row ∈ (pruneRetired now t).saves := by
  refine mem_deleteWhere.mpr ⟨hrow, ?_⟩
  rw [List.any_eq_false]
  intro old hold hkey
  obtain ⟨hmem, hretired⟩ := mem_retiredOperations hold
  obtain rfl := eq_of_key_eq hinv.keys hmem hrow (of_decide_eq_true hkey)
  exact (retired_iff.mp hretired).1 hclaimed

theorem keys_pruneRetired (hinv : DraftInv t) (now : ℤ) :
    ((pruneRetired now t).saves.map DraftSaveOperation.saveKey).Nodup :=
  nodup_deleteWhere hinv.keys

/-- The row of a claim after the overdue claims were ended. -/
theorem save_endExpired (draftId : String) (expectedVersion : ℕ) (now : ℤ)
    (hkeys : (t.saves.map DraftSaveOperation.saveKey).Nodup) (hrow : row ∈ t.saves) :
    (endExpiredClaims draftId expectedVersion now t).save row.saveKey =
      some (if row ∈ overdueClaims draftId expectedVersion now t.saves then
        { row with state := .aborted, updatedAt := now } else row) := by
  rw [DraftTables.save, endExpiredClaims, lookup_updateWhere]
  · rw [lookup_of_mem hkeys hrow, Option.map_some]
    simp only [overdueClaims, List.mem_filter, hrow, true_and]
  · exact fun _ => rfl

theorem of_mem_overdue
    (hrow : row ∈ overdueClaims draftId expectedVersion now (pruneRetired now t).saves) :
    row ∈ t.saves ∧ row.state = .claimed := by
  obtain ⟨hrow, hoverdue⟩ := List.mem_filter.mp hrow
  exact ⟨(mem_deleteWhere.mp hrow).1,
    (claims_iff.mp (Bool.and_eq_true_iff.mp hoverdue).1).2.2⟩

/-- An overdue claim is ended. -/
theorem save_of_overdue (hinv : DraftInv t)
    (hrow : row ∈ overdueClaims draftId expectedVersion now (pruneRetired now t).saves) :
    (endExpiredClaims draftId expectedVersion now (pruneRetired now t)).save row.saveKey =
      some { row with state := .aborted, updatedAt := now } := by
  obtain ⟨hmem, hclaimed⟩ := of_mem_overdue hrow
  rw [save_endExpired _ _ now (keys_pruneRetired hinv now)
    (mem_pruneRetired hinv hmem hclaimed now), if_pos hrow]

/-- A claim that is overdue is not pruned. -/
theorem overdue_pruned (hinv : DraftInv t)
    (hrow : row ∈ overdueClaims draftId expectedVersion now t.saves) :
    row ∈ overdueClaims draftId expectedVersion now (pruneRetired now t).saves := by
  obtain ⟨hmem, hoverdue⟩ := List.mem_filter.mp hrow
  have hclaimed := (claims_iff.mp (Bool.and_eq_true_iff.mp hoverdue).1).2.2
  exact List.mem_filter.mpr ⟨mem_pruneRetired hinv hmem hclaimed now, hoverdue⟩

/-- A claim is not answered by the row of its key: there is none, or its save is over, or ran
out. -/
def ReachesVersion (t : DraftTables) (input : ClaimInput) (now : ℤ) : Prop :=
  ∀ old ∈ (pruneRetired now t).save input.saveKey, input.conflicts old = false ∧
    old.state ≠ .committed ∧ (old.state = .claimed → old.claimExpiresAt ≤ now)

/-- The call ends the claim of a row: by an abort, by a pass that finds it, by a claim that is
granted for its key or its version, or by a claim of its version that is refused, when it ran
out. -/
def EndsClaim (t : DraftTables) (row : DraftSaveOperation) : DraftCall → Prop
  | .abort saveKey fingerprint claimToken _ =>
      row.claimedBy saveKey fingerprint claimToken = true
  | .expire now => row ∈ expiredOperations now t.saves
  | .claim input now =>
      ((∃ stale, (claimDraftSave input now t).1 = .claimed stale) ∧
        row.claimToken ≠ some input.claimToken ∧
        (row.saveKey = input.saveKey ∨ row.claims input.draftId input.expectedVersion = true)) ∨
      (∀ stale, (claimDraftSave input now t).1 ≠ .claimed stale) ∧ ReachesVersion t input now ∧
        row ∈ overdueClaims input.draftId input.expectedVersion now t.saves
  | _ => False

/-- A claim that is refused for its version has ended the claims that ran out. -/
theorem claimDraftSave_refused (hreaches : ReachesVersion t input now)
    (hrefused : ∀ stale, (claimDraftSave input now t).1 ≠ .claimed stale) :
    (claimDraftSave input now t).2 =
      endExpiredClaims input.draftId input.expectedVersion now (pruneRetired now t) := by
  have hrevision : claimDraftSave input now t = claimRevision input now (pruneRetired now t) := by
    rw [claimDraftSave]
    cases hold : (pruneRetired now t).save input.saveKey with
    | none => rfl
    | some old =>
        obtain ⟨hconflicts, hcommitted, hexpires⟩ := hreaches old hold
        dsimp only
        rw [if_neg (Bool.not_eq_true _ ▸ hconflicts), if_neg hcommitted,
          if_neg fun hrunning => absurd (hexpires hrunning.1) (not_le.mpr hrunning.2)]
  rw [hrevision] at hrefused ⊢
  rw [claimRevision] at hrefused ⊢
  split at hrefused
  · rename_i halone
    rw [if_pos halone]
  · rename_i halone
    rw [if_neg halone]
    split at hrefused
    · rfl
    · exact absurd rfl (hrefused _)

theorem save_abort {saveKey fingerprint claimToken : String} (hrow : row ∈ t.saves)
    (hclaimed : row.claimedBy saveKey fingerprint claimToken = true)
    (hkeys : (t.saves.map DraftSaveOperation.saveKey).Nodup) :
    (abortDraftSave saveKey fingerprint claimToken now t).2.save row.saveKey =
      some { row with state := .aborted, updatedAt := now } := by
  rw [abortDraftSave]
  split
  · rename_i hnone
    exact absurd hclaimed (List.find?_eq_none.mp hnone row hrow)
  · rw [DraftTables.save, lookup_updateWhere]
    · rw [lookup_of_mem hkeys hrow, Option.map_some, if_pos hclaimed]
    · exact fun _ => rfl

/-- A pass ends the claims that it finds. -/
theorem save_promoteExpired (hexpired : row.expired now = true)
    {operations : List DraftSaveOperation} (hmem : row ∈ operations)
    (hsave : Ended (some row) (t.save row.saveKey)) :
    ∀ cur ∈ (operations.foldl (promoteExpiredClaim now) t).save row.saveKey,
      cur.state ≠ .claimed := by
  have hstay : ∀ {a b : Option DraftSaveOperation}, Ended a b → (∀ cur ∈ a, cur.state ≠ .claimed) →
      ∀ cur ∈ b, cur.state ≠ .claimed := by
    intro a b hended hover
    cases hended with
    | kept => exact hover
    | ended now hclaimed => exact absurd hclaimed (hover _ rfl)
  induction operations generalizing t with
  | nil => cases hmem
  | cons operation operations ih =>
      rw [List.foldl_cons]
      rcases List.mem_cons.mp hmem with rfl | hrest
      · refine hstay (ended_promoteExpired now operations row.saveKey) ?_
        have hkey : ∀ r : DraftSaveOperation,
            ({ r with state := .aborted, updatedAt := now } : DraftSaveOperation).saveKey =
              r.saveKey := fun _ => rfl
        rw [DraftTables.save] at hsave
        rw [DraftTables.save, promoteExpiredClaim, lookup_updateWhere hkey]
        generalize hcur : lookup DraftSaveOperation.saveKey row.saveKey t.saves = cur at hsave
        cases hsave with
        | kept =>
            rintro cur ⟨rfl⟩
            simp [hexpired]
        | ended now' hclaimed =>
            rintro cur ⟨rfl⟩
            simp [DraftSaveOperation.expired]
      · exact ih hrest (hsave.trans (ended_promoteExpired now [operation] row.saveKey))

/-- **A claim that is ended** no longer stands. -/
theorem not_claimedUnder_of_ends (hinv : DraftInv t) (htokens : TokensOf t drawn)
    (hrow : row ∈ t.saves) (htoken : row.claimToken = some token) (hends : EndsClaim t row call) :
    ¬ ClaimedUnder (draftStep t call) token := by
  rintro ⟨row', hrow', hclaimed', htoken'⟩
  have hkeys := keys_step hinv.keys call
  have hsave' := (save_iff hkeys).mpr ⟨hrow', rfl⟩
  have hchange := rowChange_step hinv.keys call row'.saveKey
  rw [hsave'] at hchange
  rcases hchange.of_claimed hclaimed' with
    ⟨row₀, hold, hstate, hkey, hdraft, hversion, hsame⟩ | ⟨input, now, stale, rfl, hgranted, rfl⟩
  · obtain ⟨hmem, -⟩ := (save_iff hinv.keys).mp hold
    obtain rfl := htokens.one row₀ hmem row hrow token (hsame.trans htoken') htoken
    rw [← hkey] at hsave'
    cases call with
    | abort saveKey fingerprint claimToken now =>
        rw [draftStep, save_abort hrow hends hinv.keys] at hsave'
        cases hsave'
        cases hclaimed'
    | expire now =>
        obtain ⟨-, hexpired⟩ := List.mem_filter.mp (by
          have hsorted := List.mem_of_mem_take hends
          rwa [List.mem_insertionSort] at hsorted)
        exact save_promoteExpired hexpired hends
          ((save_iff hinv.keys).mpr ⟨hrow, rfl⟩ ▸ .kept _) row' hsave' hclaimed'
    | claim input now =>
        rcases hends with ⟨⟨stale, hgranted⟩, hother, hends⟩ | ⟨hrefused, hreaches, hoverdue⟩
        · have hsamekey : row'.saveKey = input.saveKey := by
            rcases hends with hkeyeq | hclaims
            · exact hkey.symm.trans hkeyeq
            · obtain ⟨hd, hv, -⟩ := claims_iff.mp hclaims
              exact alone_of_granted hgranted hrow'
                (claims_iff.mpr ⟨hdraft.symm.trans hd, hversion.symm.trans hv, hclaimed'⟩)
          rw [hkey, hsamekey, draftStep, save_of_granted hgranted] at hsave'
          cases hsave'
          exact hother (htoken.trans htoken'.symm)
        · rw [draftStep, claimDraftSave_refused hreaches hrefused] at hsave'
          rw [save_of_overdue hinv (overdue_pruned hinv hoverdue)] at hsave'
          rw [← Option.some.inj hsave'] at hclaimed'
          cases hclaimed'
    | _ => exact hends.elim
  · rcases hends with ⟨-, hother, -⟩ | ⟨hrefused, -⟩
    · exact hother (htoken.trans htoken'.symm)
    · exact hrefused stale hgranted

/-- **A save whose claim was ended is never committed**, when tokens are drawn once. -/
theorem never_committed (hinv : DraftInv t) (htokens : TokensOf t drawn)
    (hfresh : (drawn ++ (call :: later).flatMap claimTokens).Nodup) (hrow : row ∈ t.saves)
    (htoken : row.claimToken = some token) (hends : EndsClaim t row call)
    (hwrite : draftWrite (run draftStep (draftStep t call) later) call' = some write)
    (hclaim : write.claim = some claim) : claim.claimToken ≠ token := by
  rintro rfl
  have hdrawn := htokens.drawn row hrow _ htoken
  have hlater : claim.claimToken ∉ later.flatMap claimTokens := fun hmem =>
    List.disjoint_of_nodup_append hfresh hdrawn
      (by rw [List.flatMap_cons]; exact List.mem_append_right _ hmem)
  refine not_claimedUnder_run (draftStep_inv hinv call)
    (not_claimedUnder_of_ends hinv htokens hrow htoken hends) hlater ?_
  obtain ⟨row', now, hsave, hclaimed, -⟩ := commit_of_write hwrite hclaim
  obtain ⟨-, -, htoken', hstate⟩ := claimedBy_iff.mp hclaimed
  exact ⟨row', (lookup_eq_some hsave).1, hstate, htoken'⟩

/-! ### Answers for a committed save -/

/-- The call finds that the row of a key was not touched for the time that a client may ask
again. -/
def forgetsSave (t : DraftTables) (saveKey : String) : DraftCall → Bool
  | .claim _ now => (t.save saveKey).any fun row => row.retired now
  | _ => false

section

variable (hinv : DraftInv t) (hsave : t.save k = some row) (hcommitted : row.state = .committed)
include hinv hsave hcommitted

/-- **The row of a committed save stays**, but for the time it was touched. -/
theorem committed_step (hkeeps : forgetsSave t k call = false) :
    ∃ updatedAt, (draftStep t call).save k = some { row with updatedAt := updatedAt } := by
  have hchange := rowChange_step hinv.keys call k
  rw [hsave] at hchange
  generalize (draftStep t call).save k = after at hchange
  generalize hold : some row = old at hchange
  cases hchange with
  | kept => exact ⟨row.updatedAt, hold.symm⟩
  | pruned hcall hretired =>
      cases hold
      simp [hcall, forgetsSave, hsave, hretired] at hkeeps
  | granted hcall hgranted hfree =>
      have hretired := (hfree row hold.symm).2 hcommitted
      simp [hcall, forgetsSave, hsave, hretired] at hkeeps
  | recorded keys now hclaimed =>
      cases hold
      rw [hcommitted] at hclaimed
      cases hclaimed
  | ended now hclaimed =>
      cases hold
      rw [hcommitted] at hclaimed
      cases hclaimed
  | refreshed now =>
      cases hold
      exact ⟨now, rfl⟩
  | committed hcall hclaim hsaved hclaimed =>
      cases hold
      rw [(claimedBy_iff.mp hclaimed).2.2.2] at hcommitted
      cases hcommitted

theorem committed_run
    (hkeeps : Along draftStep (fun t call => forgetsSave t k call = false) t later) :
    ∃ updatedAt, (run draftStep t later).save k = some { row with updatedAt := updatedAt } := by
  have hstep : ∀ t call, (DraftInv t ∧ ∃ updatedAt, t.save k = some { row with updatedAt }) →
      forgetsSave t k call = false → DraftInv (draftStep t call) ∧
        ∃ updatedAt, (draftStep t call).save k = some { row with updatedAt } := by
    rintro t call ⟨hinv, updatedAt, hsave⟩ hkeeps
    obtain ⟨updatedAt', hsave'⟩ := committed_step hinv hsave hcommitted hkeeps
    exact ⟨draftStep_inv hinv call, updatedAt', hsave'⟩
  exact (run_invariant_of_along hstep ⟨hinv, row.updatedAt, hsave⟩ later hkeeps).2

end

/-- **A claim under the key of a committed save** is answered with the save, or with a conflict. -/
theorem claim_of_committed (hinv : DraftInv t) (hsave : t.save input.saveKey = some row)
    (hcommitted : row.state = .committed) (hkept : row.retired now = false) :
    (claimDraftSave input now t).1 =
      if input.conflicts row then .keyConflict
      else .committed row.draftId row.committedVersion row.claimToken
        (readDraftSnapshot row.draftId t) := by
  have hpruned : (pruneRetired now t).save input.saveKey = some row := by
    rcases save_pruneRetired hinv.keys now input.saveKey with hsame | ⟨row', hrow', hretired, -⟩
    · rw [hsame, hsave]
    · rw [hsave] at hrow'
      rw [← Option.some.inj hrow', hkept] at hretired
      cases hretired
  simp only [claimDraftSave, hpruned]
  split <;> rfl

theorem outcome_of_committed (fingerprint : String) (hsave : t.save k = some row)
    (hcommitted : row.state = .committed) :
    getDraftSaveOutcome k fingerprint t =
      if row.fingerprint ≠ fingerprint then .keyConflict
      else .found .committed row.draftId row.committedVersion row.claimToken
        (readDraftSnapshot row.draftId t) := by
  simp only [getDraftSaveOutcome, hsave, hcommitted, if_true]

/-- **The row of a committed save answers for its key** until it is forgotten. -/
theorem answers_of_committed (hinv : DraftInv t) (hsave : t.save k = some row)
    (hcommitted : row.state = .committed)
    (hkeeps : Along draftStep (fun t call => forgetsSave t k call = false) t later)
    (ht' : t' = run draftStep t later) :
    (∀ fingerprint, getDraftSaveOutcome k fingerprint t' =
      if row.fingerprint ≠ fingerprint then .keyConflict
      else .found .committed row.draftId row.committedVersion row.claimToken
        (readDraftSnapshot row.draftId t')) ∧
    ∀ input now, input.saveKey = k → forgetsSave t' k (.claim input now) = false →
      (claimDraftSave input now t').1 = (if input.conflicts row then .keyConflict
        else .committed row.draftId row.committedVersion row.claimToken
          (readDraftSnapshot row.draftId t')) ∧
      (claimDraftSave input now t').2.emails = t'.emails ∧
      (claimDraftSave input now t').2.attachments = t'.attachments := by
  have hstep : ∀ t call, DraftInv t → DraftInv (draftStep t call) :=
    fun _ call h => draftStep_inv h call
  have hinv' : DraftInv t' := by
    rw [ht']
    exact run_invariant hstep hinv later
  obtain ⟨updatedAt, hsave'⟩ := committed_run hinv hsave hcommitted hkeeps
  rw [← ht'] at hsave'
  have hcommitted' : ({ row with updatedAt } : DraftSaveOperation).state = .committed :=
    hcommitted
  have houtcome := fun fingerprint => outcome_of_committed fingerprint hsave' hcommitted'
  refine ⟨houtcome, ?_⟩
  rintro input now rfl hkept
  have hretired : ({ row with updatedAt } : DraftSaveOperation).retired now = false := by
    simpa [forgetsSave, hsave'] using hkept
  have hkeeps := claimDraftSave_keeps (t := t') input now
  have hanswer := claim_of_committed hinv' hsave' hcommitted' hretired
  exact ⟨hanswer, hkeeps.1, hkeeps.2.1⟩

/-! ### A draft that is gone -/

/-- The call makes the draft anew. -/
def createsDraft (t : DraftTables) (id : String) (call : DraftCall) : Bool :=
  (draftWrite t call).any fun write =>
    decide (write.draftId = id) && decide (write.expectedVersion = none)

theorem versionOf_of_removes (hinv : DraftInv t) (hremoves : removesDraft t id call = true) :
    (draftStep t call).versionOf id = none := by
  have hgone : ∀ id' expectedVersion state now,
      (decide (id' = id) && (removeDraftVersion id' expectedVersion state now t).1.isOk) = true →
        (removeDraftVersion id' expectedVersion state now t).2.versionOf id = none := by
    intro id' expectedVersion state now h
    obtain ⟨hid, hok⟩ := Bool.and_eq_true_iff.mp h
    obtain rfl := of_decide_eq_true hid
    rcases removeDraftVersion_cases id' expectedVersion state now with
      ⟨refusal, hrefused⟩ | ⟨hversion, -, hremoved⟩
    · rw [hrefused] at hok
      cases hok
    · rw [hremoved]
      exact versionOf_removeDraft hinv.ids hversion state now
  cases call with
  | consume id' expectedVersion now => exact hgone id' expectedVersion .consumed now hremoves
  | discard id' expectedVersion now => exact hgone id' expectedVersion .discarded now hremoves
  | _ => cases hremoves

theorem absent_step (hinv : DraftInv t) (habsent : t.versionOf id = none)
    (hkeeps : createsDraft t id call = false) : (draftStep t call).versionOf id = none := by
  have hchange := versionChange_step hinv.ids call id
  generalize (draftStep t call).versionOf id = after at hchange ⊢
  generalize t.versionOf id = before at hchange habsent
  cases hchange with
  | kept => exact habsent
  | written hwrite hid => simp [createsDraft, hwrite, hid, habsent] at hkeeps
  | removed => rfl

/-- **A draft that is gone stays away** until it is made anew. -/
theorem absent_run (hinv : DraftInv t) (habsent : t.versionOf id = none)
    (hkeeps : Along draftStep (fun t call => createsDraft t id call = false) t later) :
    (run draftStep t later).versionOf id = none := by
  have hstep : ∀ t call, (DraftInv t ∧ t.versionOf id = none) → createsDraft t id call = false →
      DraftInv (draftStep t call) ∧ (draftStep t call).versionOf id = none :=
    fun _ call h hkeeps => ⟨draftStep_inv h.1 call, absent_step h.1 h.2 hkeeps⟩
  exact (run_invariant_of_along hstep ⟨hinv, habsent⟩ later hkeeps).2

/-- **A draft that is removed** is gone, and a write that makes it anew is of version 1. -/
theorem gone_of_removes (hinv : DraftInv t) (hremoves : removesDraft t id call = true)
    (hkeeps : Along draftStep (fun t call => createsDraft t id call = false) (draftStep t call)
      later) :
    (run draftStep (draftStep t call) later).versionOf id = none ∧ ∀ call' write,
      draftWrite (run draftStep (draftStep t call) later) call' = some write →
      write.draftId = id → write.expectedVersion = none ∧ write.version = 1 := by
  have hgone := absent_run (draftStep_inv hinv call) (versionOf_of_removes hinv hremoves) hkeeps
  refine ⟨hgone, fun call' write hwrite hid => ?_⟩
  obtain ⟨hstored, hversion, -⟩ := version_of_write hwrite
  rw [hid, hgone] at hstored
  rw [← hstored] at hversion
  exact ⟨hstored.symm, hversion⟩

/-! ### The results -/

section

variable (hids : (emails.map EmailRow.id).Nodup) (attachments : List AttachmentRow)
  (bodyObjectKeys : List String)
include hids attachments bodyObjectKeys

theorem draftRun_inv (calls : List DraftCall) :
    DraftInv (draftRun emails attachments bodyObjectKeys calls) := by
  have hstep : ∀ t call, DraftInv t → DraftInv (draftStep t call) :=
    fun _ call h => draftStep_inv h call
  exact run_invariant hstep (draftInv_init hids attachments bodyObjectKeys) calls

theorem draftRun_tokens {calls : List DraftCall} (hfresh : (calls.flatMap claimTokens).Nodup) :
    TokensOf (draftRun emails attachments bodyObjectKeys calls) (calls.flatMap claimTokens) := by
  induction calls using List.reverseRecOn with
  | nil => exact ⟨by simp [draftRun, DraftTables.init], by simp [draftRun, DraftTables.init]⟩
  | append_singleton calls call ih =>
      simp only [List.flatMap_append, List.flatMap_cons, List.flatMap_nil,
        List.append_nil] at hfresh ⊢
      rw [draftRun, run_append]
      exact (ih (List.Nodup.of_append_left hfresh)).step (draftRun_inv hids _ _ calls) hfresh

end

/-- **Draft saves lose no update**, in any order of calls, at any clock readings:

* a write is of the version that is stored, raises it by one, and changes no other draft; a save is
  committed with it if the claim of its key, fingerprint and token stands for this draft and this
  version;
* a later write of the draft expects a later version, until the draft is removed;
* one version of a draft has one claim at most;
* a save whose claim was ended, by an abort, by a pass of the alarm, by a claim of its key or its
  version under another token, or by one that was refused after it ran out, is never committed, when
  tokens are drawn once;
* the row of a committed save answers for its key, with the version it was committed with or with a
  conflict, and changes no draft, until a claim finds that the row was not touched for 30 days;
* a draft that is removed is gone until a write without an expected version makes it anew, at
  version 1. -/
theorem draft_saves_lose_no_update (emails : List EmailRow) (hids : (emails.map EmailRow.id).Nodup)
    (attachments : List AttachmentRow) (bodyObjectKeys : List String) (calls : List DraftCall) :
    (∀ call write, draftWrite (draftRun emails attachments bodyObjectKeys calls) call = some write →
      (draftRun emails attachments bodyObjectKeys calls).versionOf write.draftId =
          write.expectedVersion ∧
        write.version = write.expectedVersion.getD 0 + 1 ∧
        (draftRun emails attachments bodyObjectKeys (calls ++ [call])).versionOf write.draftId =
          some write.version ∧
        (∀ id, id ≠ write.draftId →
          (draftRun emails attachments bodyObjectKeys (calls ++ [call])).versionOf id =
            (draftRun emails attachments bodyObjectKeys calls).versionOf id) ∧
        (∀ claim, write.claim = some claim → ∃ row now,
          (draftRun emails attachments bodyObjectKeys calls).save claim.saveKey = some row ∧
          row.claimedBy claim.saveKey claim.fingerprint claim.claimToken = true ∧
          row.draftId = write.draftId ∧ row.expectedVersion = write.expectedVersion.getD 0 ∧
          (draftRun emails attachments bodyObjectKeys (calls ++ [call])).save claim.saveKey =
            some { row with
              state := .committed, committedVersion := some write.version, updatedAt := now }) ∧
        ∀ later, Along draftStep (fun t call => removesDraft t write.draftId call = false)
            (draftRun emails attachments bodyObjectKeys (calls ++ [call])) later →
          ∀ call' write',
            draftWrite (draftRun emails attachments bodyObjectKeys (calls ++ [call] ++ later))
              call' = some write' → write'.draftId = write.draftId →
              write.expectedVersion.getD 0 < write'.expectedVersion.getD 0) ∧
    (∀ row ∈ (draftRun emails attachments bodyObjectKeys calls).saves,
      ∀ row' ∈ (draftRun emails attachments bodyObjectKeys calls).saves,
        row.state = .claimed → row'.state = .claimed → row.draftId = row'.draftId →
          row.expectedVersion = row'.expectedVersion → row = row') ∧
    (∀ row ∈ (draftRun emails attachments bodyObjectKeys calls).saves, ∀ token,
      row.claimToken = some token → ∀ call,
        EndsClaim (draftRun emails attachments bodyObjectKeys calls) row call → ∀ later,
          ((calls ++ call :: later).flatMap claimTokens).Nodup → ∀ call' write claim,
            draftWrite (draftRun emails attachments bodyObjectKeys (calls ++ call :: later)) call' =
              some write → write.claim = some claim → claim.claimToken ≠ token) ∧
    (∀ k row, (draftRun emails attachments bodyObjectKeys calls).save k = some row →
      row.state = .committed → row.committedVersion = some (row.expectedVersion + 1) ∧
      ∀ later, Along draftStep (fun t call => forgetsSave t k call = false)
          (draftRun emails attachments bodyObjectKeys calls) later → ∀ t,
        t = draftRun emails attachments bodyObjectKeys (calls ++ later) →
        (∀ fingerprint, getDraftSaveOutcome k fingerprint t =
          if row.fingerprint ≠ fingerprint then .keyConflict
          else .found .committed row.draftId row.committedVersion row.claimToken
            (readDraftSnapshot row.draftId t)) ∧
        ∀ input now, input.saveKey = k → forgetsSave t k (.claim input now) = false →
          (claimDraftSave input now t).1 = (if input.conflicts row then .keyConflict
            else .committed row.draftId row.committedVersion row.claimToken
              (readDraftSnapshot row.draftId t)) ∧
          (claimDraftSave input now t).2.emails = t.emails ∧
          (claimDraftSave input now t).2.attachments = t.attachments) ∧
    (∀ id call, removesDraft (draftRun emails attachments bodyObjectKeys calls) id call = true →
      ∀ later, Along draftStep (fun t call => createsDraft t id call = false)
          (draftRun emails attachments bodyObjectKeys (calls ++ [call])) later →
        (draftRun emails attachments bodyObjectKeys (calls ++ [call] ++ later)).versionOf id =
          none ∧
        ∀ call' write,
          draftWrite (draftRun emails attachments bodyObjectKeys (calls ++ [call] ++ later)) call' =
            some write →
          write.draftId = id → write.expectedVersion = none ∧ write.version = 1) := by
  have hinv := draftRun_inv hids attachments bodyObjectKeys
  have happend : ∀ before after, draftRun emails attachments bodyObjectKeys (before ++ after) =
      run draftStep (draftRun emails attachments bodyObjectKeys before) after :=
    fun before after => run_append draftStep _ before after
  have hnext : ∀ call, draftRun emails attachments bodyObjectKeys (calls ++ [call]) =
      draftStep (draftRun emails attachments bodyObjectKeys calls) call :=
    fun call => happend calls [call]
  refine ⟨fun call write hwrite => ?_, (hinv calls).alone, ?_, ?_, ?_⟩
  · obtain ⟨hstored, hversion, hafter, hothers⟩ := version_of_write hwrite
    rw [hnext]
    refine ⟨hstored, hversion, hafter, hothers, fun claim => commit_of_write hwrite, ?_⟩
    intro later hkeeps call' write' hwrite' hdraft
    rw [happend, hnext] at hwrite'
    exact lt_of_later_write (hinv calls) hwrite hkeeps hwrite' hdraft
  · intro row hrow token htoken call hends later hfresh call' write claim hwrite hclaim
    rw [happend] at hwrite
    rw [List.flatMap_append] at hfresh
    exact never_committed (hinv calls)
      (draftRun_tokens hids attachments bodyObjectKeys (List.Nodup.of_append_left hfresh)) hfresh
      hrow htoken hends hwrite hclaim
  · intro k row hsave hcommitted
    refine ⟨(hinv calls).commits row (lookup_eq_some hsave).1 hcommitted, ?_⟩
    intro later hkeeps t ht
    exact answers_of_committed (hinv calls) hsave hcommitted hkeeps (ht.trans (happend calls later))
  · intro id call hremoves later hkeeps
    rw [hnext] at hkeeps
    rw [happend (calls ++ [call]), hnext]
    exact gone_of_removes (hinv calls) hremoves hkeeps

/-! ### A save that is committed a second time -/

def sampleContent : DraftContent := ⟨"Hello", "a@b.c", "d@e.f", none, none, "Hi", none, "draft-1"⟩

/-- A claim of the first version of the sample draft. -/
def sampleClaim (token : String) (now : ℤ) : DraftCall :=
  .claim ⟨"key-1", "print-1", "draft-1", 0, token, now + 300000⟩ now

/-- The write of this version. -/
def sampleWrite (token : String) (now : ℤ) : DraftCall :=
  .upsert ⟨"draft-1", none, none, none, sampleContent, some "key-1", some "print-1", some token, []⟩
    [] now

/-- The first version is written. -/
theorem draft_saves_lose_no_update_sample :
    (draftRun [] [] [] [sampleClaim "token-1" 0, sampleWrite "token-1" 1]).versionOf "draft-1" =
        some 1 ∧
      ∀ later, Along draftStep (fun t call => removesDraft t "draft-1" call = false)
          (draftRun [] [] [] [sampleClaim "token-1" 0, sampleWrite "token-1" 1]) later →
        ∀ call' write', draftWrite (draftRun [] [] []
          ([sampleClaim "token-1" 0, sampleWrite "token-1" 1] ++ later)) call' = some write' →
            write'.draftId = "draft-1" → 0 < write'.expectedVersion.getD 0 := by
  have hwrite : draftWrite (draftRun [] [] [] [sampleClaim "token-1" 0]) (sampleWrite "token-1" 1) =
      some ⟨"draft-1", none, 1, some ⟨"key-1", "print-1", "token-1"⟩⟩ := by
    decide +kernel
  have h := (draft_saves_lose_no_update [] List.nodup_nil [] [] [sampleClaim "token-1" 0]).1
    (sampleWrite "token-1" 1) _ hwrite
  exact ⟨h.2.2.1, h.2.2.2.2.2⟩

/-- The draft is saved and sent, and the client asks again after a month. -/
def sampleCalls : List DraftCall :=
  [sampleClaim "token-1" 0, sampleWrite "token-1" 1, .consume "draft-1" 1 2]

/-- **A save is committed twice.** A month after the draft was sent, its key is free again: the
claim does not report the commit but is granted, and the save of the same version is committed
once more. -/
theorem save_committed_twice :
    draftWrite (draftRun [] [] [] [sampleClaim "token-1" 0]) (sampleWrite "token-1" 1) =
        some ⟨"draft-1", none, 1, some ⟨"key-1", "print-1", "token-1"⟩⟩ ∧
      (claimDraftSave ⟨"key-1", "print-1", "draft-1", 0, "token-2", 2592300002⟩ 2592000002
        (draftRun [] [] [] sampleCalls)).1 = .claimed [] ∧
      draftWrite (draftRun [] [] [] (sampleCalls ++ [sampleClaim "token-2" 2592000002]))
          (sampleWrite "token-2" 2592000003) =
        some ⟨"draft-1", none, 1, some ⟨"key-1", "print-1", "token-2"⟩⟩ := by
  decide +kernel

end MailPortal.Drafts
