import MailPortal.Drafts.CleanupRules

/-!
# Tokens that are Over

A token is over when its claim was ended without a commit. It is never claimed or committed again,
when tokens are drawn once; and nobody names a key of it, when a write names only keys of its own
claim or keys that are named already. Intents, passes and what passes delete belong to tokens that
are over.

Main definitions:

* `Disciplined` : what the clients of the operations keep to.
* `TablesInv` : what holds of the tables, the claims and the intents.

Main results:

* `TablesInv.keeps_call`, `TablesInv.keeps_settle` : it is kept by every call, and by the last
  transaction of a pass.
-/

namespace MailPortal.Drafts

open Failure Table

variable {event : CleanupEvent} {token claimToken : String} {write : DraftWrite} {claim : SaveClaim}
  {ended : List DraftSaveOperation} {intent : DraftSaveCleanupIntent} {verification : Verification}
  {completedAt : ℤ}
variable {now : ℤ} {row : DraftSaveOperation} {keys : List String}

/-! ### What clients keep to -/

/-- The tokens that claims came with. -/
def drawnTokens (history : List CleanupEvent) : List String :=
  history.filterMap fun event =>
    match event with
    | .drawn token => some token
    | _ => none

/-- The keys that were recorded last for a token. -/
def lastRecord (token : String) (history : List CleanupEvent) : Option (List String) :=
  (history.filterMap fun event =>
    match event with
    | .recorded token' keys => if token' = token then some keys else none
    | _ => none).getLast?

/-- What the attachments of a write name: keys of the claim of the write, or such as are named
already, or such as are of no token; and all the keys that were recorded last for the claim. -/
structure NamesOwnKeys (tokenOf : String → Option String) (s : DraftSystem)
    (saveClaim : Option SaveClaim) (attachments : List AttachmentRow) : Prop where
  own : ∀ row ∈ attachments, ∀ token, tokenOf (storedAttachmentKey row) = some token →
    (∃ claim, saveClaim = some claim ∧ claim.claimToken = token) ∨
      ∃ named ∈ s.tables.attachments, storedAttachmentKey named = storedAttachmentKey row
  all : ∀ claim, saveClaim = some claim → ∀ keys,
    lastRecord claim.claimToken s.history = some keys →
    ∀ key ∈ keys, key ∈ attachments.map storedAttachmentKey

/-- **The discipline of clients.** `tokenOf` says which token a key is made from. A claim comes with
a new token, a promotion writes to a key of its own token, and a write names its own keys. -/
def Disciplined (tokenOf : String → Option String) (s : DraftSystem) : SystemEvent → Prop
  | .call (.claim input _) => input.claimToken ∉ drawnTokens s.history
  | .call (.upsert input attachments _) => NamesOwnKeys tokenOf s input.saveClaim attachments
  | .promote key owner => tokenOf key = some owner
  | _ => True

/-! ### The invariant of the tables -/

/-- The claim of the token was ended, and not by a commit. -/
structure Over (s : DraftSystem) (token : String) : Prop where
  drawn : token ∈ drawnTokens s.history
  unclaimed : ¬ ClaimedUnder s.tables token
  uncommitted : .committed token ∉ s.history

/-- Who is to see to the recorded keys: the claim that stands, the committed save that named them
all, or an intent, until a pass has verified it. -/
def Covered (s : DraftSystem) (token : String) (keys : List String) : Prop :=
  (∃ row ∈ s.tables.saves, row.state = .claimed ∧ row.claimToken = some token ∧
    row.destinationKeys = keys) ∨
  (∃ named, .attached token named ∈ s.history ∧ ∀ key ∈ keys, key ∈ named) ∨
  (∃ intent ∈ s.tables.intents, intent.claimToken = token ∧ intent.destinationKeys = keys) ∨
  .settled token keys ∈ s.history

/-- **The invariant of the tables**: a token is drawn once, and what it wrote is owned or over. -/
structure TablesInv (tokenOf : String → Option String) (s : DraftSystem) : Prop where
  draft : DraftInv s.tables
  fresh : (drawnTokens s.history).Nodup
  tokens : TokensOf s.tables (drawnTokens s.history)
  owned : ∀ row ∈ s.tables.saves, ∃ token, row.claimToken = some token
  intentKeys : (s.tables.intents.map DraftSaveCleanupIntent.claimToken).Nodup
  intents : ∀ intent ∈ s.tables.intents, Over s intent.claimToken
  committed : ∀ token, .committed token ∈ s.history →
    token ∈ drawnTokens s.history ∧ ¬ ClaimedUnder s.tables token
  named : ∀ row ∈ s.tables.attachments, ∀ token,
    tokenOf (storedAttachmentKey row) = some token → .committed token ∈ s.history
  handed : ∀ keys, .handedOver keys ∈ s.history → ∀ key ∈ keys, ∀ token,
    tokenOf key = some token → .committed token ∈ s.history
  covered : ∀ token keys, lastRecord token s.history = some keys → keys ≠ [] →
    Covered s token keys

variable {tokenOf : String → Option String} {s : DraftSystem} {t : DraftTables}

/-! ### What a call adds to the history -/

@[simp] theorem drawnTokens_append (before after : List CleanupEvent) :
    drawnTokens (before ++ after) = drawnTokens before ++ drawnTokens after :=
  List.filterMap_append

theorem drawnTokens_eq_nil {events : List CleanupEvent}
    (h : ∀ token, .drawn token ∉ events) : drawnTokens events = [] := by
  refine List.filterMap_eq_nil_iff.mpr fun event hevent => ?_
  cases event with
  | drawn token => exact absurd hevent (h token)
  | _ => rfl

theorem mem_attachEvents {input : UpsertInput} {attachments : List AttachmentRow} :
    event ∈ attachEvents t input attachments now ↔ ∃ write claim,
      draftWrite t (.upsert input attachments now) = some write ∧ write.claim = some claim ∧
        event = .attached claim.claimToken (attachments.map storedAttachmentKey) := by
  constructor
  · intro h
    obtain ⟨claim, hclaim, rfl⟩ := List.mem_map.mp h
    obtain ⟨write, hwrite, hclaim⟩ := Option.bind_eq_some_iff.mp (Option.mem_toList.mp hclaim)
    exact ⟨write, claim, hwrite, hclaim, rfl⟩
  · rintro ⟨write, claim, hwrite, hclaim, rfl⟩
    refine List.mem_map.mpr ⟨claim, Option.mem_toList.mpr ?_, rfl⟩
    rw [hwrite]
    exact hclaim

variable {call : DraftCall}

theorem mem_commitEvents :
    event ∈ commitEvents t call ↔ ∃ write claim, draftWrite t call = some write ∧
      write.claim = some claim ∧ event = .committed claim.claimToken := by
  constructor
  · intro h
    obtain ⟨claim, hclaim, rfl⟩ := List.mem_map.mp h
    obtain ⟨write, hwrite, hclaim⟩ := Option.bind_eq_some_iff.mp (Option.mem_toList.mp hclaim)
    exact ⟨write, claim, hwrite, hclaim, rfl⟩
  · rintro ⟨write, claim, hwrite, hclaim, rfl⟩
    refine List.mem_map.mpr ⟨claim, Option.mem_toList.mpr ?_, rfl⟩
    rw [hwrite]
    exact hclaim

/-- The events of a call. -/
theorem mem_callEvents (h : event ∈ callEvents t call) :
    (∃ token, event = .drawn token ∧ token ∈ claimTokens call) ∨
    (∃ saveKey fingerprint claimToken keys now, event = .recorded claimToken keys ∧
      call = .record saveKey fingerprint claimToken keys now ∧
      (recordDraftSavePromotion saveKey fingerprint claimToken keys now t).1 = true) ∨
    (∃ write claim, draftWrite t call = some write ∧ write.claim = some claim ∧
      event = .committed claim.claimToken) ∨
    (∃ id, event = .handedOver ((t.attachmentsOf id).map storedAttachmentKey)) ∨
    ∃ token keys, event = .attached token keys := by
  cases call with
  | claim input now =>
      obtain rfl := List.mem_singleton.mp h
      exact .inl ⟨input.claimToken, rfl, List.mem_singleton_self _⟩
  | record saveKey fingerprint claimToken keys now =>
      simp only [callEvents] at h
      split at h
      · rename_i hrecorded
        obtain rfl := List.mem_singleton.mp h
        exact .inr (.inl ⟨saveKey, fingerprint, claimToken, keys, now, rfl, rfl, hrecorded⟩)
      · cases h
  | upsert input attachments now =>
      rcases List.mem_append.mp h with hcommitted | hattached
      · exact .inr (.inr (.inl (mem_commitEvents.mp hcommitted)))
      · obtain ⟨_, _, -, -, rfl⟩ := mem_attachEvents.mp hattached
        exact .inr (.inr (.inr (.inr ⟨_, _, rfl⟩)))
  | consume id expectedVersion now =>
      simp only [callEvents, consumeDraftVersion] at h
      rcases removeDraftVersion_cases (t := t) id expectedVersion .consumed now with
        ⟨refusal, hrefused⟩ | ⟨-, -, hremoved⟩
      · rw [hrefused] at h
        cases h
      · rw [hremoved] at h
        obtain rfl := List.mem_singleton.mp h
        exact .inr (.inr (.inr (.inl ⟨id, rfl⟩)))
  | _ => cases h

theorem drawnTokens_callEvents (call : DraftCall) :
    drawnTokens (callEvents t call) = claimTokens call := by
  cases call with
  | claim input now => rfl
  | _ =>
      refine drawnTokens_eq_nil fun token hmem => ?_
      rcases mem_callEvents hmem with ⟨_, -, htoken⟩ | ⟨_, _, _, _, _, h, -⟩ | ⟨_, _, -, -, h⟩ |
        ⟨_, h⟩ | ⟨_, _, h⟩
      · cases htoken
      · cases h
      · cases h
      · cases h
      · cases h

theorem committed_mem_callEvents (h : .committed token ∈ callEvents t call) :
    ∃ write claim, draftWrite t call = some write ∧ write.claim = some claim ∧
      claim.claimToken = token := by
  rcases mem_callEvents h with ⟨_, h, -⟩ | ⟨_, _, _, _, _, h, -⟩ |
    ⟨write, claim, hwrite, hclaim, h⟩ | ⟨_, h⟩ | ⟨_, _, h⟩
  · cases h
  · cases h
  · exact ⟨write, claim, hwrite, hclaim, (CleanupEvent.committed.inj h).symm⟩
  · cases h
  · cases h

section

variable {call : DraftCall} (hwrite : draftWrite t call = some write)
  (hclaim : write.claim = some claim)
include hwrite hclaim

theorem committed_of_write : .committed claim.claimToken ∈ callEvents t call := by
  obtain ⟨input, attachments, now, rfl, -⟩ := draftWrite_cases hwrite
  exact List.mem_append_left _ (mem_commitEvents.mpr ⟨write, claim, hwrite, hclaim, rfl⟩)

/-! ### Tokens over a call -/

/-- The token of a commit was claimed. -/
theorem claimedUnder_of_commit : ClaimedUnder t claim.claimToken := by
  obtain ⟨row, now, hsave, hmine, -⟩ := commit_of_write hwrite hclaim
  obtain ⟨-, -, htoken, hstate⟩ := claimedBy_iff.mp hmine
  exact ⟨row, (lookup_eq_some hsave).1, hstate, htoken⟩

end

/-- After a commit no claim stands under its token. -/
theorem not_claimedUnder_of_commit {drawn : List String} (hinv : DraftInv t)
    (htokens : TokensOf t drawn) (hwrite : draftWrite t call = some write)
    (hclaim : write.claim = some claim) : ¬ ClaimedUnder (draftStep t call) claim.claimToken := by
  rintro ⟨row', hrow', hstate', htoken'⟩
  obtain ⟨row, now, hsave, hmine, -, -, hafter⟩ := commit_of_write hwrite hclaim
  obtain ⟨hkey, -, htoken, -⟩ := claimedBy_iff.mp hmine
  have hkeys := keys_step hinv.keys call
  have hchange := rowChange_step hinv.keys call row'.saveKey
  rw [(save_iff hkeys).mpr ⟨hrow', rfl⟩] at hchange
  rcases hchange.of_claimed hstate' with
    ⟨row₀, hold, -, hkey₀, -, -, hsame⟩ | ⟨input, now', stale, rfl, -, -⟩
  · obtain ⟨hmem₀, -⟩ := (save_iff hinv.keys).mp hold
    obtain rfl := htokens.one row₀ hmem₀ row (lookup_eq_some hsave).1 _
      (hsame.trans htoken') htoken
    have hsave' := (save_iff hkeys).mpr ⟨hrow', hkey₀.symm.trans hkey⟩
    rw [hafter] at hsave'
    rw [← Option.some.inj hsave'] at hstate'
    cases hstate'
  · obtain ⟨_, _, _, h, -⟩ := draftWrite_cases hwrite
    cases h

theorem drawnTokens_call (call : DraftCall) :
    drawnTokens (systemStep s (.call call)).history =
      drawnTokens s.history ++ claimTokens call := by
  rw [systemStep, drawnTokens_append, drawnTokens_callEvents]

namespace TablesInv

variable {call : DraftCall}

/-- The tokens of a call are new. -/
theorem new (hd : Disciplined tokenOf s (.call call)) :
    ∀ token ∈ claimTokens call, token ∉ drawnTokens s.history := by
  intro token htoken
  cases call with
  | claim input now =>
      obtain rfl := List.mem_singleton.mp htoken
      exact hd
  | _ => cases htoken

section

variable (h : TablesInv tokenOf s)
include h

theorem nodup_call (hd : Disciplined tokenOf s (.call call)) :
    (drawnTokens s.history ++ claimTokens call).Nodup := by
  refine List.nodup_append.mpr ⟨h.fresh, ?_, fun a ha b hb hab => ?_⟩
  · cases call <;> simp [claimTokens]
  · exact new hd b hb (hab ▸ ha)

/-- **A token that is over stays over.** -/
theorem over_call (hd : Disciplined tokenOf s (.call call)) (hover : Over s token) :
    Over (systemStep s (.call call)) token where
  drawn := by
    rw [drawnTokens_call]
    exact List.mem_append_left _ hover.drawn
  unclaimed := not_claimedUnder_step h.draft hover.unclaimed fun hmem =>
    new hd token hmem hover.drawn
  uncommitted hcommitted := by
    rcases List.mem_append.mp hcommitted with hold | hnew
    · exact hover.uncommitted hold
    · obtain ⟨write, claim, hwrite, hclaim, rfl⟩ := committed_mem_callEvents hnew
      exact hover.unclaimed (claimedUnder_of_commit hwrite hclaim)

/-- A claim that stands has left no intent. -/
theorem noPlan : ∀ row ∈ s.tables.saves, ∀ token,
    row.state = .claimed → row.claimToken = some token → plan token s.tables.intents = none := by
  intro row hrow token hstate htoken
  cases hplan : lookup DraftSaveCleanupIntent.claimToken token s.tables.intents with
  | none => rw [plan, hplan, Option.map_none]
  | some intent =>
      obtain ⟨hmem, rfl⟩ := lookup_eq_some hplan
      exact absurd ⟨row, hrow, hstate, htoken⟩ (h.intents intent hmem).unclaimed

theorem promotionOwner_eq (hrow : row ∈ s.tables.saves) :
    row.claimToken = some row.promotionOwner := by
  obtain ⟨token, htoken⟩ := h.owned row hrow
  rw [DraftSaveOperation.promotionOwner, htoken, Option.getD_some]

/-- A claim that a call ends is over. -/
theorem over_ended (hd : Disciplined tokenOf s (.call call)) (hending : Ending s.tables call ended)
    (hrow : row ∈ ended) : Over (systemStep s (.call call)) row.promotionOwner := by
  obtain ⟨hmem, hstate⟩ := hending.mem row hrow
  have htoken := h.promotionOwner_eq hmem
  have hdrawn := h.tokens.drawn row hmem _ htoken
  have hfresh : ∀ token ∈ claimTokens call, row.claimToken ≠ some token := by
    intro token hnew heq
    obtain rfl := Option.some.inj (htoken.symm.trans heq)
    exact new hd _ hnew hdrawn
  have hkeys := keys_step h.draft.keys call
  refine ⟨?_, ?_, ?_⟩
  · rw [drawnTokens_call]
    exact List.mem_append_left _ hdrawn
  · rintro ⟨row', hrow', hstate', htoken'⟩
    have hchange := rowChange_step h.draft.keys call row'.saveKey
    rw [(save_iff hkeys).mpr ⟨hrow', rfl⟩] at hchange
    rcases hchange.of_claimed hstate' with
      ⟨row₀, hold, -, hkey, -, -, hsame⟩ | ⟨input, now, stale, rfl, -, rfl⟩
    · obtain ⟨hmem₀, -⟩ := (save_iff h.draft.keys).mp hold
      obtain rfl := h.tokens.one row₀ hmem₀ row hmem _ (hsame.trans htoken') htoken
      exact hending.finished row₀ hrow hfresh row' hrow' hkey.symm hsame.symm hstate'
    · exact hfresh input.claimToken (List.mem_singleton_self _) (htoken.trans htoken'.symm)
  · intro hcommitted
    rcases List.mem_append.mp hcommitted with hold | hnew
    · exact (h.committed _ hold).2 ⟨row, hmem, hstate, htoken⟩
    · obtain ⟨write, claim, hwrite, -⟩ := committed_mem_callEvents hnew
      rw [hending.noWrite (List.ne_nil_of_mem hrow)] at hwrite
      cases hwrite

/-- The intents of a call: those that were there, and those of the claims that it ended. -/
theorem intents_call (hd : Disciplined tokenOf s (.call call))
    (hending : Ending s.tables call ended) (intent : DraftSaveCleanupIntent)
    (hintent : intent ∈ (draftStep s.tables call).intents) :
    Over (systemStep s (.call call)) intent.claimToken := by
  by_cases hmine : ∃ row ∈ ended, row.promotionOwner = intent.claimToken ∧ row.destinationKeys ≠ []
  · obtain ⟨row, hrow, howner, -⟩ := hmine
    exact howner ▸ h.over_ended hd hending hrow
  · have hkept := hending.intents.kept intent.claimToken fun row hrow howner => by
      by_contra hkeys
      exact hmine ⟨row, hrow, howner, hkeys⟩
    rw [plan, plan, lookup_of_mem (hending.intents.keys h.intentKeys) hintent,
      Option.map_some] at hkept
    obtain ⟨old, hold, -⟩ := Option.map_eq_some_iff.mp hkept.symm
    obtain ⟨hmem, hkey⟩ := lookup_eq_some hold
    exact h.over_call hd (hkey ▸ h.intents old hmem)

theorem committed_call (hd : Disciplined tokenOf s (.call call)) (token : String)
    (hcommitted : .committed token ∈ (systemStep s (.call call)).history) :
    token ∈ drawnTokens (systemStep s (.call call)).history ∧
      ¬ ClaimedUnder (draftStep s.tables call) token := by
  rw [drawnTokens_call]
  rcases List.mem_append.mp hcommitted with hold | hnew
  · obtain ⟨hdrawn, hunclaimed⟩ := h.committed token hold
    exact ⟨List.mem_append_left _ hdrawn, not_claimedUnder_step h.draft hunclaimed fun hmem =>
      new hd token hmem hdrawn⟩
  · obtain ⟨write, claim, hwrite, hclaim, rfl⟩ := committed_mem_callEvents hnew
    obtain ⟨row, hrow, -, htoken⟩ := claimedUnder_of_commit hwrite hclaim
    exact ⟨List.mem_append_left _ (h.tokens.drawn row hrow _ htoken),
      not_claimedUnder_of_commit h.draft h.tokens hwrite hclaim⟩

theorem owned_call (row : DraftSaveOperation) (hrow : row ∈ (draftStep s.tables call).saves) :
    ∃ token, row.claimToken = some token := by
  have hchange := rowChange_step h.draft.keys call row.saveKey
  rw [(save_iff (keys_step h.draft.keys call)).mpr ⟨hrow, rfl⟩] at hchange
  rcases hchange.claimToken with ⟨row₀, hold, hsame⟩ | ⟨input, now, -, rfl⟩
  · obtain ⟨token, htoken⟩ := h.owned row₀ ((save_iff h.draft.keys).mp hold).1
    exact ⟨token, hsame.symm.trans htoken⟩
  · exact ⟨input.claimToken, rfl⟩

/-- Every key that is named is of a committed save, or of none. -/
theorem named_call (hd : Disciplined tokenOf s (.call call)) (row : AttachmentRow)
    (hrow : row ∈ (draftStep s.tables call).attachments) (token : String)
    (htoken : tokenOf (storedAttachmentKey row) = some token) :
    .committed token ∈ (systemStep s (.call call)).history := by
  rcases attachments_step call hrow with hold |
    ⟨input, attachments, now, write, rfl, hwrite, hclaim, hnew⟩
  · exact List.mem_append_left _ (h.named row hold token htoken)
  · rcases hd.own row hnew token htoken with ⟨claim, hsave, rfl⟩ | ⟨named, hnamed, hkey⟩
    · exact List.mem_append_right _ (committed_of_write hwrite (hclaim.trans hsave))
    · exact List.mem_append_left _ (h.named named hnamed token (hkey ▸ htoken))

theorem handed_call (keys : List String)
    (hhanded : .handedOver keys ∈ (systemStep s (.call call)).history) :
    ∀ key ∈ keys, ∀ token, tokenOf key = some token →
      .committed token ∈ (systemStep s (.call call)).history := by
  intro key hkey token htoken
  refine List.mem_append_left _ ?_
  rcases List.mem_append.mp hhanded with hold | hnew
  · exact h.handed keys hold key hkey token htoken
  · rcases mem_callEvents hnew with ⟨_, heq, -⟩ | ⟨_, _, _, _, _, heq, -⟩ | ⟨_, _, -, -, heq⟩ |
      ⟨id, heq⟩ | ⟨_, _, heq⟩
    · cases heq
    · cases heq
    · cases heq
    · cases heq
      obtain ⟨row, hrow, rfl⟩ := List.mem_map.mp hkey
      exact h.named row (List.mem_filter.mp hrow).1 token htoken
    · cases heq

end

end TablesInv

/-! ### The recorded keys over a call -/

theorem lastRecord_append (token : String) (before after : List CleanupEvent) :
    lastRecord token (before ++ after) = (lastRecord token after).or (lastRecord token before) := by
  rw [lastRecord, List.filterMap_append, List.getLast?_append]
  rfl

/-- A record is in the history. -/
theorem recorded_of_lastRecord {events : List CleanupEvent}
    (h : lastRecord token events = some keys) : .recorded token keys ∈ events := by
  obtain ⟨event, hevent, hkeys⟩ := List.mem_filterMap.mp (List.mem_of_getLast? h)
  cases event with
  | recorded token' keys' =>
      dsimp only at hkeys
      split at hkeys
      · rename_i htoken
        cases hkeys
        exact htoken ▸ hevent
      · cases hkeys
  | _ => cases hkeys

/-- A record that is told to be done is that of the claim. -/
theorem claimed_of_recorded {saveKey fingerprint : String}
    (h : (recordDraftSavePromotion saveKey fingerprint claimToken keys now t).1 = true) :
    ∃ row ∈ (recordDraftSavePromotion saveKey fingerprint claimToken keys now t).2.saves,
      row.state = .claimed ∧ row.claimToken = some claimToken ∧ row.destinationKeys = keys := by
  rw [recordDraftSavePromotion] at h ⊢
  split at h
  · cases h
  · rename_i keys' hdecode
    obtain rfl := decode_eq_some hdecode
    obtain ⟨row, hfound, hkeys⟩ := (Option.any_eq_true _ _).mp h
    have hmine := List.find?_some hfound
    obtain ⟨-, -, htoken, hstate⟩ := claimedBy_iff.mp hmine
    exact ⟨row, List.mem_of_find?_eq_some hfound, hstate, htoken, of_decide_eq_true hkeys⟩

namespace TablesInv

variable {call : DraftCall}

/-- An intent stays over a call, with its plan: its claim does not stand. -/
theorem intent_call (h : TablesInv tokenOf s) (hending : Ending s.tables call ended)
    (hintent : intent ∈ s.tables.intents) :
    ∃ new ∈ (draftStep s.tables call).intents, new.claimToken = intent.claimToken ∧
      new.destinationKeys = intent.destinationKeys := by
  have hover := h.intents intent hintent
  have hkept := hending.intents.kept intent.claimToken fun row hrow howner => by
    obtain ⟨hmem, hstate⟩ := hending.mem row hrow
    exact absurd ⟨row, hmem, hstate, howner ▸ h.promotionOwner_eq hmem⟩ hover.unclaimed
  rw [plan, plan, lookup_of_mem h.intentKeys hintent, Option.map_some] at hkept
  obtain ⟨new, hnew, hsame⟩ := Option.map_eq_some_iff.mp hkept
  obtain ⟨hmem, hkey⟩ := lookup_eq_some hnew
  exact ⟨new, hmem, hkey, hsame⟩

section

variable (h : TablesInv tokenOf s) (hd : Disciplined tokenOf s (.call call))
include h hd

theorem covered_call (hending : Ending s.tables call ended) (token : String) (keys : List String)
    (hlast : lastRecord token (systemStep s (.call call)).history = some keys) (hkeys : keys ≠ []) :
    Covered (systemStep s (.call call)) token keys := by
  have hlast' : lastRecord token (s.history ++ callEvents s.tables call) = some keys := hlast
  rw [lastRecord_append] at hlast'
  rcases Option.or_eq_some_iff.mp hlast' with hnew | ⟨hnone, hold⟩
  · -- The call recorded the keys for the claim.
    rcases mem_callEvents (recorded_of_lastRecord hnew) with ⟨_, heq, -⟩ |
      ⟨saveKey, fingerprint, claimToken, keys', now, heq, rfl, hdone⟩ |
        ⟨_, _, -, -, heq⟩ | ⟨_, heq⟩ |
      ⟨_, _, heq⟩
    · cases heq
    · cases heq
      exact .inl (claimed_of_recorded hdone)
    · cases heq
    · cases heq
    · cases heq
  · rcases h.covered token keys hold hkeys with ⟨row, hrow, hstate, htoken, rfl⟩ | hcommitted |
      ⟨intent, hintent, rfl, rfl⟩ | hsettled
    · have howner : row.promotionOwner = token :=
        Option.some.inj ((h.promotionOwner_eq hrow).symm.trans htoken)
      rcases hending.others row hrow hstate with hends | ⟨row', hrow', hstate', htoken', hkeys'⟩ |
        ⟨write, claim, hwrite, hclaim, htoken'⟩
      · -- The call ended the claim, which left an intent.
        have hone : ∀ row' ∈ ended, row'.promotionOwner = token →
            row'.destinationKeys = row.destinationKeys := by
          intro row' hrow' howner'
          have hmem' := (hending.mem row' hrow').1
          rw [h.tokens.one row' hmem' row hrow token
            (howner' ▸ h.promotionOwner_eq hmem') htoken]
        have hplan := hending.intents.covered token row.destinationKeys hkeys
          (h.noPlan row hrow token hstate htoken) ⟨row, hends, howner, rfl⟩ hone
        obtain ⟨intent, hintent, hsame⟩ := Option.map_eq_some_iff.mp hplan
        obtain ⟨hmem, hkey⟩ := lookup_eq_some hintent
        exact .inr (.inr (.inl ⟨intent, hmem, hkey, hsame⟩))
      · rcases hkeys' with hsame | ⟨token', keys', htoken'', hrecorded, -⟩
        · exact .inl ⟨row', hrow', hstate', htoken'.trans htoken, hsame⟩
        · -- The call recorded other keys for the claim: this was not its last record.
          obtain rfl := Option.some.inj (htoken.symm.trans htoken'')
          rw [lastRecord, List.getLast?_eq_none_iff, List.filterMap_eq_nil_iff] at hnone
          simpa using hnone _ hrecorded
      · obtain rfl := Option.some.inj (htoken.symm.trans htoken')
        obtain ⟨input, attachments, now, rfl, hsame, -⟩ := draftWrite_cases hwrite
        have hsaveClaim : input.saveClaim = some claim := by
          rw [hsame] at hclaim
          exact hclaim
        have hattached := mem_attachEvents.mpr ⟨write, claim, hwrite, hclaim, rfl⟩
        exact .inr (.inl ⟨_, List.mem_append_right _ (List.mem_append_right _ hattached),
          hd.all claim hsaveClaim _ hold⟩)
    · obtain ⟨named, hattached, hall⟩ := hcommitted
      exact .inr (.inl ⟨named, List.mem_append_left _ hattached, hall⟩)
    · exact .inr (.inr (.inl (h.intent_call hending hintent)))
    · exact .inr (.inr (.inr (List.mem_append_left _ hsettled)))

/-- **Every call keeps the invariant of the tables.** -/
theorem keeps_call : TablesInv tokenOf (systemStep s (.call call)) := by
  obtain ⟨ended, hending⟩ := ending_step h.draft h.noPlan call
  constructor
  · exact draftStep_inv h.draft call
  · rw [drawnTokens_call]
    exact h.nodup_call hd
  · rw [drawnTokens_call]
    exact h.tokens.step h.draft (h.nodup_call hd)
  · exact h.owned_call
  · exact hending.intents.keys h.intentKeys
  · exact h.intents_call hd hending
  · exact h.committed_call hd
  · exact h.named_call hd
  · exact h.handed_call
  · exact h.covered_call hd hending

end

end TablesInv

/-! ### What passes do -/

/-- What a pass writes down while it reads and deletes objects. -/
def CleanupEvent.OfPass : CleanupEvent → Prop
  | sawNone .. | sawForeign .. | cleared .. | destroyed .. => True
  | _ => False

section Local

variable {s' : DraftSystem} {events : List CleanupEvent}

theorem drawnTokens_ofPass (hhistory : s'.history = s.history ++ events)
    (hevents : ∀ token, .drawn token ∉ events) :
    drawnTokens s'.history = drawnTokens s.history := by
  rw [hhistory, drawnTokens_append, drawnTokens_eq_nil hevents, List.append_nil]

theorem Over.ofPass (h : Over s token) (hsaves : s'.tables.saves = s.tables.saves)
    (hhistory : s'.history = s.history ++ events) (hdrawn : ∀ token, .drawn token ∉ events)
    (hcommitted : ∀ token, .committed token ∉ events) :
    Over s' token where
  drawn := by
    rw [drawnTokens_ofPass hhistory hdrawn]
    exact h.drawn
  unclaimed := by
    rw [ClaimedUnder, hsaves]
    exact h.unclaimed
  uncommitted hmem := by
    rw [hhistory] at hmem
    rcases List.mem_append.mp hmem with hold | hnew
    · exact h.uncommitted hold
    · exact hcommitted token hnew

/-- A step that only reads and deletes objects keeps the invariant of the tables. -/
theorem TablesInv.ofPass (h : TablesInv tokenOf s) (htables : s'.tables = s.tables)
    (hhistory : s'.history = s.history ++ events) (hevents : ∀ event ∈ events, event.OfPass) :
    TablesInv tokenOf s' := by
  have hdrawn : ∀ token, .drawn token ∉ events := fun token hmem => hevents _ hmem
  have hcommitted : ∀ token, .committed token ∉ events := fun token hmem => hevents _ hmem
  have hsame := drawnTokens_ofPass hhistory hdrawn
  have hmono : ∀ event ∈ s.history, event ∈ s'.history := fun event hmem =>
    hhistory ▸ List.mem_append_left _ hmem
  have hback : ∀ event : CleanupEvent, ¬ event.OfPass → event ∈ s'.history → event ∈ s.history := by
    intro event hnot hmem
    rw [hhistory] at hmem
    rcases List.mem_append.mp hmem with hold | hnew
    · exact hold
    · exact absurd (hevents event hnew) hnot
  constructor
  · rw [htables]
    exact h.draft
  · rw [hsame]
    exact h.fresh
  · rw [htables, hsame]
    exact h.tokens
  · rw [htables]
    exact h.owned
  · rw [htables]
    exact h.intentKeys
  · rw [htables]
    exact fun intent hintent =>
      (h.intents intent hintent).ofPass (by rw [htables]) hhistory hdrawn hcommitted
  · intro token hmem
    rw [hsame, htables]
    exact h.committed token (hback _ id hmem)
  · rw [htables]
    exact fun row hrow token htoken => hmono _ (h.named row hrow token htoken)
  · exact fun keys hmem key hkey token htoken =>
      hmono _ (h.handed keys (hback _ id hmem) key hkey token htoken)
  · intro token keys hlast hkeys
    have hnone : lastRecord token events = none := by
      rw [lastRecord, List.getLast?_eq_none_iff, List.filterMap_eq_nil_iff]
      intro event hmem
      cases event with
      | recorded => exact (hevents _ hmem).elim
      | _ => rfl
    rw [hhistory, lastRecord_append, hnone, Option.none_or] at hlast
    rcases h.covered token keys hlast hkeys with hclaim | hcommitted | hintent | hsettled
    · exact .inl (by rw [htables]; exact hclaim)
    · obtain ⟨named, hattached, hall⟩ := hcommitted
      exact .inr (.inl ⟨named, hmono _ hattached, hall⟩)
    · exact .inr (.inr (.inl (by rw [htables]; exact hintent)))
    · exact .inr (.inr (.inr (hmono _ hsettled)))

end Local

/-! ### The last transaction of a pass -/

/-- What the last transaction does to the intents: they stay under their keys and with their plans,
or the intent of the pass is deleted. -/
theorem settleIntent_cases (claimToken : String) (verification : Verification) (completedAt : ℤ) :
    (∃ current, t.intent claimToken = some current ∧
      deletesIntent verification current completedAt = true ∧
      settleIntent claimToken verification completedAt t = { t with
        intents := deleteWhere
          (fun intent => decide (intent.claimToken = claimToken)) t.intents }) ∨
    ((∀ current, t.intent claimToken = some current →
        deletesIntent verification current completedAt = false) ∧
      ∃ intents, settleIntent claimToken verification completedAt t = { t with intents } ∧
        (intents = t.intents ∨ ∃ current new, t.intent claimToken = some current ∧
          new.claimToken = current.claimToken ∧ new.destinationKeys = current.destinationKeys ∧
          intents = update DraftSaveCleanupIntent.claimToken new t.intents)) := by
  rw [settleIntent]
  cases hcurrent : t.intent claimToken with
  | none => exact .inr ⟨by simp, t.intents, rfl, .inl rfl⟩
  | some current =>
      dsimp only
      split
      · rename_i hstate
        refine .inr ⟨?_, t.intents, rfl, .inl rfl⟩
        rintro _ ⟨rfl⟩
        simp [deletesIntent, hstate]
      · split
        · rename_i hintegrity
          refine .inr ⟨?_, _, rfl, .inr ⟨current, parkIntent current completedAt, rfl, rfl, rfl,
            rfl⟩⟩
          rintro _ ⟨rfl⟩
          simp [deletesIntent, hintegrity]
        · split
          · rename_i hdeletes
            exact .inl ⟨current, rfl, hdeletes, rfl⟩
          · rename_i hkeeps
            refine .inr ⟨?_, _, rfl, .inr ⟨current, retryIntent verification current completedAt,
              rfl, rfl, rfl, rfl⟩⟩
            rintro _ ⟨rfl⟩
            simpa using hkeeps

/-- An intent after the last transaction of a pass was there before, with its token and its
plan. -/
theorem mem_settleIntent
    (h : intent ∈ (settleIntent claimToken verification completedAt t).intents) :
    ∃ old ∈ t.intents, old.claimToken = intent.claimToken ∧
      old.destinationKeys = intent.destinationKeys := by
  rcases settleIntent_cases (t := t) claimToken verification completedAt with
    ⟨current, -, -, heq⟩ | ⟨-, intents, heq, rfl | ⟨current, new, hcurrent, hkey, hplan, rfl⟩⟩
  · rw [heq] at h
    exact ⟨intent, (mem_deleteWhere.mp h).1, rfl, rfl⟩
  · rw [heq] at h
    exact ⟨intent, h, rfl, rfl⟩
  · rw [heq] at h
    rcases mem_update h with rfl | ⟨hold, -⟩
    · exact ⟨current, (lookup_eq_some hcurrent).1, hkey.symm, hplan.symm⟩
    · exact ⟨intent, hold, rfl, rfl⟩

theorem mem_settledEvents (h : event ∈ settledEvents t claimToken verification completedAt) :
    ∃ current, t.intent claimToken = some current ∧
      deletesIntent verification current completedAt = true ∧
      event = .settled claimToken current.destinationKeys := by
  rw [settledEvents] at h
  split at h
  · rename_i current hcurrent
    split at h
    · rename_i hdeletes
      exact ⟨current, hcurrent, hdeletes, List.mem_singleton.mp h⟩
    · cases h
  · cases h

theorem settledEvents_of_deletes {current : DraftSaveCleanupIntent}
    (hcurrent : t.intent claimToken = some current)
    (hdeletes : deletesIntent verification current completedAt = true) :
    settledEvents t claimToken verification completedAt =
      [.settled claimToken current.destinationKeys] := by
  simp only [settledEvents, hcurrent, hdeletes, if_true]

/-- An intent stays, with its plan, or the last transaction deletes it. -/
theorem intent_settleIntent (claimToken : String) (verification : Verification) (completedAt : ℤ)
    (hkeys :
      (t.intents.map DraftSaveCleanupIntent.claimToken).Nodup) (hintent : intent ∈ t.intents) :
    (∃ new ∈ (settleIntent claimToken verification completedAt t).intents,
      new.claimToken = intent.claimToken ∧ new.destinationKeys = intent.destinationKeys) ∨
    .settled intent.claimToken intent.destinationKeys ∈
      settledEvents t claimToken verification completedAt := by
  rcases settleIntent_cases (t := t) claimToken verification completedAt with
    ⟨current, hcurrent, hdeletes, heq⟩ |
    ⟨-, intents, heq, rfl | ⟨current, new, hcurrent, hkey, hplan, rfl⟩⟩
  · by_cases hmine : intent.claimToken = claimToken
    · obtain ⟨hmem, hkey⟩ := lookup_eq_some hcurrent
      obtain rfl := eq_of_key_eq hkeys hmem hintent (hkey.trans hmine.symm)
      rw [settledEvents_of_deletes hcurrent hdeletes, hmine]
      exact .inr (List.mem_singleton_self _)
    · refine .inl ⟨intent, ?_, rfl, rfl⟩
      rw [heq]
      exact mem_deleteWhere.mpr ⟨hintent, decide_eq_false hmine⟩
  · rw [heq]
    exact .inl ⟨intent, hintent, rfl, rfl⟩
  · rw [heq]
    obtain ⟨hmem, -⟩ := lookup_eq_some hcurrent
    by_cases hmine : intent.claimToken = current.claimToken
    · obtain rfl := eq_of_key_eq hkeys hmem hintent hmine.symm
      exact .inl ⟨new, mem_update_self hintent hkey.symm, hkey, hplan⟩
    · exact .inl ⟨intent, mem_update_of_ne hintent (by rwa [hkey]), rfl, rfl⟩

theorem settleIntent_keys (hkeys : (t.intents.map DraftSaveCleanupIntent.claimToken).Nodup) :
    ((settleIntent claimToken verification completedAt t).intents.map
      DraftSaveCleanupIntent.claimToken).Nodup := by
  rcases settleIntent_cases (t := t) claimToken verification completedAt with
    ⟨current, -, -, heq⟩ | ⟨-, intents, heq, rfl | ⟨current, new, -, -, -, rfl⟩⟩
  · rw [heq]
    exact nodup_deleteWhere hkeys
  · rw [heq]
    exact hkeys
  · rw [heq, map_key_update]
    exact hkeys

/-- The last transaction changes the intents alone. -/
theorem settleIntent_eq (claimToken : String) (verification : Verification) (completedAt : ℤ) :
    ∃ intents, settleIntent claimToken verification completedAt t = { t with intents } := by
  rcases settleIntent_cases (t := t) claimToken verification completedAt with
    ⟨current, -, -, heq⟩ | ⟨-, intents, heq, -⟩
  · exact ⟨_, heq⟩
  · exact ⟨intents, heq⟩

/-- **The last transaction of a pass keeps the invariant of the tables.** -/
theorem TablesInv.keeps_settle (h : TablesInv tokenOf s) {s' : DraftSystem}
    (htables : s'.tables = settleIntent claimToken verification completedAt s.tables)
    (hhistory : s'.history = s.history ++
      settledEvents s.tables claimToken verification completedAt) : TablesInv tokenOf s' := by
  obtain ⟨intents, heq⟩ := settleIntent_eq (t := s.tables) claimToken verification completedAt
  have hsettled : ∀ event ∈ settledEvents s.tables claimToken verification completedAt,
      ∃ token keys, event = .settled token keys := by
    intro event hmem
    obtain ⟨current, -, -, rfl⟩ := mem_settledEvents hmem
    exact ⟨_, _, rfl⟩
  have hdrawn : ∀ token, .drawn token ∉
      settledEvents s.tables claimToken verification completedAt := by
    intro token hmem
    obtain ⟨_, _, heq⟩ := hsettled _ hmem
    cases heq
  have hcommitted : ∀ token, .committed token ∉
      settledEvents s.tables claimToken verification completedAt := by
    intro token hmem
    obtain ⟨_, _, heq⟩ := hsettled _ hmem
    cases heq
  have hsame := drawnTokens_ofPass hhistory hdrawn
  have hmono : ∀ event ∈ s.history, event ∈ s'.history := fun event hmem =>
    hhistory ▸ List.mem_append_left _ hmem
  have hback : ∀ event, (∀ token keys, event ≠ .settled token keys) → event ∈ s'.history →
      event ∈ s.history := by
    intro event hnot hmem
    rw [hhistory] at hmem
    rcases List.mem_append.mp hmem with hold | hnew
    · exact hold
    · obtain ⟨token, keys, rfl⟩ := hsettled event hnew
      exact absurd rfl (hnot token keys)
  have hsaves : s'.tables.saves = s.tables.saves := by rw [htables, heq]
  have hattachments : s'.tables.attachments = s.tables.attachments := by rw [htables, heq]
  constructor
  · rw [htables, heq]
    exact ⟨h.draft.ids, h.draft.keys, h.draft.alone, h.draft.commits⟩
  · rw [hsame]
    exact h.fresh
  · rw [hsame]
    refine ⟨?_, ?_⟩
    · rw [hsaves]
      exact h.tokens.drawn
    · rw [hsaves]
      exact h.tokens.one
  · rw [hsaves]
    exact h.owned
  · rw [htables]
    exact settleIntent_keys h.intentKeys
  · intro intent hintent
    rw [htables] at hintent
    obtain ⟨old, hold, hkey, -⟩ := mem_settleIntent hintent
    exact hkey ▸ (h.intents old hold).ofPass hsaves hhistory hdrawn hcommitted
  · intro token hmem
    rw [hsame, ClaimedUnder, hsaves]
    exact h.committed token (hback _ (by simp) hmem)
  · rw [hattachments]
    exact fun row hrow token htoken => hmono _ (h.named row hrow token htoken)
  · exact fun keys hmem key hkey token htoken =>
      hmono _ (h.handed keys (hback _ (by simp) hmem) key hkey token htoken)
  · intro token keys hlast hkeys
    have hnone : lastRecord token (settledEvents s.tables claimToken verification completedAt) =
        none := by
      rw [lastRecord, List.getLast?_eq_none_iff, List.filterMap_eq_nil_iff]
      intro event hmem
      obtain ⟨_, _, rfl⟩ := hsettled event hmem
      rfl
    rw [hhistory, lastRecord_append, hnone, Option.none_or] at hlast
    rcases h.covered token keys hlast hkeys with ⟨row, hrow, hclaim⟩ | hcommitted |
      ⟨intent, hintent, rfl, rfl⟩ | hsettled
    · exact .inl ⟨row, hsaves ▸ hrow, hclaim⟩
    · obtain ⟨named, hattached, hall⟩ := hcommitted
      exact .inr (.inl ⟨named, hmono _ hattached, hall⟩)
    · rcases intent_settleIntent claimToken verification completedAt h.intentKeys hintent with
        ⟨new, hnew, hkey, hplan⟩ | hdeleted
      · exact .inr (.inr (.inl ⟨new, htables ▸ hnew, hkey, hplan⟩))
      · exact .inr (.inr (.inr (hhistory ▸ List.mem_append_right _ hdeleted)))
    · exact .inr (.inr (.inr (hmono _ hsettled)))

end MailPortal.Drafts
