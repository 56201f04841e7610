import MailPortal.Recovery.Bonds
import MailPortal.Recovery.System

/-!
# The Fence

Every event keeps the rows and the attempts bound. The fence binds a row to a new attempt under its
lease token, which is the key of the attempt: no token passes twice. An acceptance or a failure
finds both ends of a bond, or neither.

Main results:

* `deliveryStep_tablesAfter` : what an event does to the rows and the attempts.
* `recovery_fence` : the rows and the attempts of every reachable state.
-/

namespace MailPortal.Recovery

open Failure Table Runs

variable {row : DeliveryRow} {p : DeliveryRow → Bool} {state : AttemptState}
  {attempt : DeliveryAttempt}

/-- What an event does to the deliveries of the tables. -/
def TablesStep (new : List String) (t t' : RecoveryTables) : Prop :=
  DeliveryStep new t.outbox t.attempts t'.outbox t'.attempts

variable {record : CredentialRecoveryIssue} {lease : Option RequestLease} {draw : IssueDraw}
  {t : RecoveryTables}

/-! ### Rows that are cancelled or marked -/

theorem final_of_waiting (h : row.waiting = true) : row.state.final = false := by
  simp only [DeliveryRow.waiting, Bool.or_eq_true, decide_eq_true_eq] at h
  rcases h with h | h <;> rw [h] <;> rfl

theorem link_of_waiting (h : row.waiting = true) : row.link = none := by
  simp only [DeliveryRow.waiting, Bool.or_eq_true, decide_eq_true_eq] at h
  rcases h with h | h <;> rw [DeliveryRow.link, h]

variable {outbox : List DeliveryRow} {attempts : List DeliveryAttempt}

/-- Mails that wait are cancelled. -/
theorem DeliveryStep.cancel (hp : ∀ row, p row = true → row.waiting = true) (reason : String)
    (now : ℤ) :
    DeliveryStep [] outbox attempts (updateWhere p (fun row => row.cancelledRow reason now) outbox)
      attempts :=
  .update (fun _ => rfl) (fun row h => final_of_waiting (hp row h)) (fun _ _ _ => rfl)
    fun row h => (link_of_waiting (hp row h)).symm

/-- Mails that are being sent are marked. -/
theorem DeliveryStep.mark (hp : ∀ row, p row = true → row.state = .dispatching) (reason : String)
    (now : ℤ) :
    DeliveryStep [] outbox attempts (updateWhere p (fun row => row.markedRow reason now) outbox)
      attempts :=
  .update (fun _ => rfl) (fun row h => by rw [hp row h]; rfl) (fun _ _ h => h) fun _ _ => rfl

/-! ### Issue and consume -/

theorem tablesStep_issue (mailOrigin : String) (url : RecoveryUrl) (expiresAt : ℤ) :
    TablesStep [] t (issueTables record lease draw mailOrigin url expiresAt t) := by
  obtain ⟨jobs, -, hsame | ⟨hnames, -, hissued⟩⟩ :=
    @issueTables_cases record lease draw t mailOrigin url expiresAt
  · rw [hsame]
    exact .refl
  · rw [hissued]
    have hcancel : ∀ row : DeliveryRow,
        (row.carriesTokenOf record.userId t && row.waiting) = true → row.waiting = true :=
      fun row h => (Bool.and_eq_true _ _ ▸ h).2
    have hmark : ∀ row : DeliveryRow, (row.carriesTokenOf record.userId t &&
        decide (row.state = .dispatching)) = true → row.state = .dispatching :=
      fun row h => of_decide_eq_true (Bool.and_eq_true _ _ ▸ h).2
    have hnew : ∀ row ∈ withSuperseded record t, row.id ≠ draw.deliveryId := fun row hrow =>
      ((keys_new_withSuperseded _ _ _).mpr hnames.delivery row hrow).1
    exact ((DeliveryStep.cancel hcancel _ _).trans (.mark hmark _ _)).trans
      (.append hnew rfl rfl)

/-- What a batch that spends a token does to the deliveries. -/
theorem tablesStep_stopDelivery (record : FoundToken) (input : ConsumeInput) (nonce : String) :
    TablesStep [] t (stopDelivery record input nonce t) := by
  refine DeliveryStep.trans (.cancel ?_ _ _) (.mark ?_ _ _)
  · intro row h
    simp only [Bool.and_eq_true] at h
    exact h.1.2
  · intro row h
    simp only [Bool.and_eq_true, decide_eq_true_eq] at h
    exact h.1.2

theorem tablesStep_consumeFound (record : FoundToken) (input : ConsumeInput)
    (nonce auditId : String) :
    TablesStep [] t (committed t (consumeFound record input nonce auditId t)) := by
  rcases consumeFound_cases record input nonce auditId t with hsame | ⟨audit, hspent⟩
  · rw [hsame]
    exact .refl
  · rw [hspent]
    let spent := (updateCredentials record input nonce (spendToken record input nonce t).2).2
    exact tablesStep_stopDelivery (t := { spent with audit := audit }) record input nonce

/-! ### Before the fence -/

theorem tablesStep_lease (id leaseToken : String) (now : ℤ) :
    TablesStep [] t (leaseDelivery id leaseToken now t).2 := by
  have hwaiting : ∀ row : DeliveryRow, (decide (row.id = id) && row.due now) = true →
      row.waiting = true := by
    intro row h
    simp only [DeliveryRow.due, Bool.and_eq_true, Bool.or_eq_true, decide_eq_true_eq] at h
    simp only [DeliveryRow.waiting, Bool.or_eq_true, decide_eq_true_eq]
    exact h.2.imp And.left And.left
  refine DeliveryStep.update (fun _ => rfl) (fun row h => final_of_waiting (hwaiting row h)) ?_
    fun row h => (link_of_waiting (hwaiting row h)).symm
  intro row h hsecret
  have hkept : row.payload.isSome = true := by
    rw [hsecret]
    have hwait := hwaiting row h
    simp only [DeliveryRow.waiting, Bool.or_eq_true, decide_eq_true_eq] at hwait
    rcases hwait with hwait | hwait <;> rw [hwait] <;> rfl
  exact hkept

/-- A row that is leased under a token. -/
theorem leasedBy_state {id leaseToken : String} (h : row.leasedBy id leaseToken = true) :
    row.id = id ∧ row.state = .leased ∧
      row.leaseToken = some leaseToken := by
  simp only [DeliveryRow.leasedBy, Bool.and_eq_true, decide_eq_true_eq] at h
  exact ⟨h.1.1, h.1.2, h.2⟩

theorem tablesStep_finishLeased (id leaseToken : String) (state : FinishState)
    (errorCode : String) (now : ℤ) :
    TablesStep [] t (finishLeasedDelivery id leaseToken state errorCode now t).2 := by
  refine DeliveryStep.update (fun _ => rfl) (fun row h => ?_) (fun row h hsecret => ?_)
    fun row h => ?_
  · rw [(leasedBy_state h).2.1]
    rfl
  · have hleased := (leasedBy_state h).2.1
    rw [DeliveryRow.SecretKept, hleased] at hsecret
    cases state with
    | cancelled => rfl
    | expired => rfl
    | parked => exact hsecret
  · rw [DeliveryRow.link, DeliveryRow.link, (leasedBy_state h).2.1]
    cases state <;> rfl

theorem tablesStep_preflight (delivery : LeasedDelivery) (now : ℤ) (seen : RecoveryTables) :
    TablesStep [] t (preflightDelivery delivery now seen t) := by
  rw [preflightDelivery]
  split
  · exact tablesStep_finishLeased _ _ _ _ _
  · exact .refl

theorem tablesStep_finishAtFence (delivery : LeasedDelivery) (payloadExpiresAt now : ℤ)
    (seen : RecoveryTables) :
    TablesStep [] t (finishAtFence delivery payloadExpiresAt now seen t) := by
  rw [finishAtFence]
  split
  · exact .refl
  · exact tablesStep_finishLeased _ _ _ _ _

/-! ### The fence -/

variable {delivery : LeasedDelivery} {payloadExpiresAt now : ℤ}

theorem leased_of_passes (h : row.passes delivery payloadExpiresAt now t = true) :
    row.leasedBy delivery.id delivery.leaseToken = true := by
  simp only [DeliveryRow.passes, Bool.and_eq_true] at h
  exact h.1.1.1.1

/-- A row that has passed is the one that an attempt is written of. -/
theorem dispatching_dispatched (h : row.leasedBy delivery.id delivery.leaseToken = true) :
    (row.dispatched now).dispatching delivery now = true := by
  obtain ⟨hid, -, htoken⟩ := leasedBy_state h
  simp [DeliveryRow.dispatching, DeliveryRow.dispatched, hid, htoken]

/-- A new attempt is bound to its row. -/
theorem bound_dispatchAttempt (h : row.dispatching delivery now = true) :
    Bound (dispatchAttempt delivery now row) row := by
  simp only [DeliveryRow.dispatching, Bool.and_eq_true, decide_eq_true_eq] at h
  obtain ⟨⟨⟨-, hstate⟩, htoken⟩, -⟩ := h
  refine ⟨rfl, ?_⟩
  rw [link_of_dispatching hstate, htoken]
  rfl

/-- A batch of the fence that goes through: no row was dispatching under the lease before. -/
theorem fenceDispatch_ok (hinv : DeliveryInv t.outbox t.attempts) {changes : ℕ × ℕ}
    {t' : RecoveryTables}
    (hok : fenceDispatch delivery payloadExpiresAt now t = .ok (changes, t')) :
    ∃ made : List DeliveryAttempt,
      made = ((updateWhere (fun row => row.passes delivery payloadExpiresAt now t)
        (fun row => row.dispatched now) t.outbox).filter
          fun row => row.dispatching delivery now).map (dispatchAttempt delivery now) ∧
      (∀ row ∈ t.outbox, row.dispatching delivery now = false) ∧
      ((t.attempts ++ made).map DeliveryAttempt.attemptId).Nodup ∧
      changes = (t.outbox.countP (fun row => row.passes delivery payloadExpiresAt now t),
        made.length) ∧
      t' = { t with
        outbox := updateWhere (fun row => row.passes delivery payloadExpiresAt now t)
          (fun row => row.dispatched now) t.outbox
        attempts := t.attempts ++ made } := by
  simp only [fenceDispatch, insertAttempts, bind_eq_ok, require_eq_ok, pure_eq_ok,
    decide_eq_true_eq, Prod.mk.injEq] at hok
  obtain ⟨tables, ⟨-, hnodup, rfl⟩, rfl, rfl⟩ := hok
  refine ⟨_, rfl, fun row hrow => ?_, hnodup, rfl, rfl⟩
  rw [← Bool.not_eq_true]
  intro hdispatching
  -- its attempt would have the key that the new one needs
  have hstate := hdispatching
  simp only [DeliveryRow.dispatching, Bool.and_eq_true, decide_eq_true_eq] at hstate
  obtain ⟨⟨⟨-, hstate⟩, htoken⟩, -⟩ := hstate
  have hne : row.link ≠ none := by
    rw [link_of_dispatching hstate]
    exact Option.some_ne_none _
  obtain ⟨attempt, hattempt, hbound⟩ := hinv.rowBound row hrow hne
  have hkey : attempt.attemptId = delivery.leaseToken := by
    have hlink := hbound.link
    rw [link_of_dispatching hstate] at hlink
    exact Option.some.inj ((attempt_link_eq_dispatching hlink).2.trans htoken)
  have hstays : row ∈ updateWhere (fun row => row.passes delivery payloadExpiresAt now t)
      (fun row => row.dispatched now) t.outbox := by
    refine mem_updateWhere.mpr (.inr ⟨hrow, ?_⟩)
    rw [← Bool.not_eq_true]
    intro hpasses
    rw [(leasedBy_state (leased_of_passes hpasses)).2.1] at hstate
    cases hstate
  rw [List.map_append, List.nodup_append] at hnodup
  refine hnodup.2.2 attempt.attemptId (List.mem_map_of_mem hattempt) delivery.leaseToken ?_ hkey
  refine List.mem_map.mpr ⟨dispatchAttempt delivery now row, ?_, rfl⟩
  exact List.mem_map_of_mem (List.mem_filter.mpr ⟨hstays, hdispatching⟩)

/-- The fence makes as many attempts as rows pass it, and that is at most one. -/
theorem length_made (hold : ∀ row ∈ t.outbox, row.dispatching delivery now = false) :
    ((updateWhere (fun row => row.passes delivery payloadExpiresAt now t)
      (fun row => row.dispatched now) t.outbox).filter
        fun row => row.dispatching delivery now).length =
      t.outbox.countP fun row => row.passes delivery payloadExpiresAt now t := by
  rw [← List.countP_eq_length_filter, updateWhere, List.countP_map]
  refine List.countP_congr fun row hrow => ?_
  rw [Function.comp_apply]
  cases hp : row.passes delivery payloadExpiresAt now t with
  | true => simp [dispatching_dispatched (leased_of_passes hp)]
  | false => simp [hold row hrow]

theorem countP_passes_le (hinv : DeliveryInv t.outbox t.attempts) :
    t.outbox.countP (fun row => row.passes delivery payloadExpiresAt now t) ≤ 1 := by
  refine countP_le_one_of_key hinv.rowIds fun row _ other _ hrow hother => ?_
  rw [(leasedBy_state (leased_of_passes hrow)).1, (leasedBy_state (leased_of_passes hother)).1]

/-- **The fence** binds the row that passes to a new attempt. -/
theorem tablesStep_fence :
    TablesStep (passes t (.fence delivery payloadExpiresAt now)) t
      (committed t (fenceDispatch delivery payloadExpiresAt now t)) := by
  cases hfence : fenceDispatch delivery payloadExpiresAt now t with
  | error e =>
      have hnone : passes t (.fence delivery payloadExpiresAt now) = [] := by
        simp [passes, fenceOpens, hfence]
      rw [hnone]
      exact .refl
  | ok result =>
      obtain ⟨changes, t'⟩ := result
      refine ⟨fun hinv => ?_, fun row hrow hfinal => ?_, fun hinv => ?_⟩
      · obtain ⟨made, hmade, -, hnodup, -, rfl⟩ := fenceDispatch_ok hinv hfence
        refine ⟨?_, hnodup, ?_, ?_, ?_⟩
        · have hid : ∀ row : DeliveryRow, (row.dispatched now).id = row.id := fun _ => rfl
          simp only [committed, map_key_updateWhere hid]
          exact hinv.rowIds
        · intro row hrow
          rcases mem_updateWhere.mp hrow with ⟨old, hold, hp, rfl⟩ | ⟨hold, -⟩
          · have hsecret := hinv.secret old hold
            rw [DeliveryRow.SecretKept, (leasedBy_state (leased_of_passes hp)).2.1] at hsecret
            exact hsecret
          · exact hinv.secret row hold
        · intro attempt hattempt hne
          rcases List.mem_append.mp hattempt with hold | hnew
          · obtain ⟨row, hrow, hbound⟩ := hinv.attemptBound attempt hold hne
            refine ⟨row, mem_updateWhere.mpr (.inr ⟨hrow, ?_⟩), hbound⟩
            rw [← Bool.not_eq_true]
            intro hp
            refine hne (hbound.link.trans ?_)
            rw [DeliveryRow.link, (leasedBy_state (leased_of_passes hp)).2.1]
          · rw [hmade] at hnew
            obtain ⟨row, hrow, rfl⟩ := List.mem_map.mp hnew
            obtain ⟨hrow, hdispatching⟩ := List.mem_filter.mp hrow
            exact ⟨row, hrow, bound_dispatchAttempt hdispatching⟩
        · intro row hrow hne
          rcases mem_updateWhere.mp hrow with ⟨old, hold, hp, rfl⟩ | ⟨hold, -⟩
          · have hdispatching : (old.dispatched now).dispatching delivery now = true :=
              dispatching_dispatched (leased_of_passes hp)
            refine ⟨_, List.mem_append_right _ ?_, bound_dispatchAttempt hdispatching⟩
            rw [hmade]
            exact List.mem_map_of_mem (List.mem_filter.mpr ⟨hrow, hdispatching⟩)
          · obtain ⟨attempt, hattempt, hbound⟩ := hinv.rowBound row hold hne
            exact ⟨attempt, List.mem_append_left _ hattempt, hbound⟩
      · simp only [fenceDispatch, insertAttempts, bind_eq_ok, require_eq_ok, pure_eq_ok,
          Prod.mk.injEq] at hfence
        obtain ⟨tables, ⟨-, -, rfl⟩, -, rfl⟩ := hfence
        refine final_updateWhere (fun other hp => ?_) hrow hfinal
        rw [(leasedBy_state (leased_of_passes hp)).2.1]
        rfl
      · obtain ⟨made, hmade, hold, -, rfl, rfl⟩ := fenceDispatch_ok hinv hfence
        have hlength : made.length =
            t.outbox.countP fun row => row.passes delivery payloadExpiresAt now t := by
          rw [hmade, List.length_map, length_made hold]
        have hcount := @countP_passes_le t delivery payloadExpiresAt now hinv
        have hmap : made.map DeliveryAttempt.attemptId =
            List.replicate made.length delivery.leaseToken := by
          rw [hmade, List.map_map, List.length_map]
          exact List.map_const'
        have hnew : passes t (.fence delivery payloadExpiresAt now) =
            List.replicate made.length delivery.leaseToken := by
          simp only [passes, fenceOpens, hfence, ← hlength, Prod.mk.injEq, and_self]
          obtain hzero | hone : made.length = 0 ∨ made.length = 1 := by omega
          · rw [hzero]
            rfl
          · rw [hone]
            rfl
        simp only [committed, List.map_append, hmap, hnew]

/-! ### After the fence -/

/-- An acceptance finds both ends of a bond, or neither. -/
theorem acceptBatch_eq (hinv : DeliveryInv t.outbox t.attempts) (id leaseToken messageId : String)
    (now : ℤ) :
    (acceptBatch id leaseToken messageId now t).2 = { t with
      outbox := updateWhere (fun row => row.dispatchedBy id leaseToken)
        (fun row => row.acceptedRow leaseToken messageId now) t.outbox
      attempts := updateWhere (fun attempt => attempt.openFor id leaseToken)
        (fun attempt => { attempt with
          state := .accepted
          providerMessageId := some messageId
          resolvedAt := some now
          updatedAt := now }) t.attempts } := by
  cases hattempted : t.attempts.any fun attempt => attempt.openFor id leaseToken with
  | true =>
      obtain ⟨attempt, hattempt, hopen⟩ := List.any_eq_true.mp hattempted
      have hne : attempt.link ≠ none := by
        simp only [DeliveryAttempt.openFor, Bool.and_eq_true, decide_eq_true_eq] at hopen
        rw [attempt_link_of_dispatching hopen.2]
        exact Option.some_ne_none _
      obtain ⟨row, hrow, hbound⟩ := hinv.attemptBound attempt hattempt hne
      have hdispatched := (hbound.openFor_iff id leaseToken).mp hopen
      have haccepted : (updateWhere (fun row => row.dispatchedBy id leaseToken)
          (fun row => row.acceptedRow leaseToken messageId now) t.outbox).any
            (fun row => decide (row.id = id) && decide (row.state = .accepted)) = true := by
        refine List.any_eq_true.mpr ⟨row.acceptedRow leaseToken messageId now,
          mem_updateWhere.mpr (.inl ⟨row, hrow, hdispatched, rfl⟩), ?_⟩
        simp only [DeliveryRow.dispatchedBy, Bool.and_eq_true, decide_eq_true_eq] at hdispatched
        simp [DeliveryRow.acceptedRow, hdispatched.1.1]
      simp only [acceptBatch, hattempted, Bool.and_true, haccepted]
  | false =>
      have hopen : ∀ attempt ∈ t.attempts, attempt.openFor id leaseToken = false := fun attempt h =>
        Bool.eq_false_iff.mpr (List.any_eq_false.mp hattempted attempt h)
      have hdispatched : ∀ row ∈ t.outbox, row.dispatchedBy id leaseToken = false := by
        intro row hrow
        rw [← Bool.not_eq_true]
        intro hdispatched
        have hne : row.link ≠ none := by
          simp only [DeliveryRow.dispatchedBy, Bool.and_eq_true, decide_eq_true_eq] at hdispatched
          rw [link_of_dispatching hdispatched.1.2]
          exact Option.some_ne_none _
        obtain ⟨attempt, hattempt, hbound⟩ := hinv.rowBound row hrow hne
        have h := (hbound.openFor_iff id leaseToken).mpr hdispatched
        rw [hopen attempt hattempt] at h
        cases h
      simp only [acceptBatch, hattempted, Bool.and_false]
      rw [updateWhere_eq_self fun _ _ => rfl, updateWhere_eq_self hdispatched,
        updateWhere_eq_self hopen, updateWhere_eq_self fun attempt h =>
          by rw [hopen attempt h]; rfl]

theorem tablesStep_accept (id leaseToken messageId : String) (now : ℤ) :
    TablesStep [] t (markAccepted id leaseToken messageId now t) := by
  rw [markAccepted]
  cases boundedMessageId messageId with
  | none => exact .refl
  | some bounded =>
      have hresolve : DeliveryStep [] t.outbox t.attempts
          (updateWhere (fun row => row.dispatchedBy id leaseToken)
            (fun row => row.acceptedRow leaseToken bounded now) t.outbox)
          (updateWhere (fun attempt => attempt.openFor id leaseToken)
            (fun attempt => { attempt with
              state := .accepted
              providerMessageId := some bounded
              resolvedAt := some now
              updatedAt := now }) t.attempts) := by
        refine .resolve (fun _ => rfl) (fun _ => rfl) (fun _ => rfl) (fun _ _ _ => rfl) ?_
        intro row attempt htoken
        rw [← htoken]
        rfl
      refine ⟨fun hinv => ?_, fun row hrow hfinal => ?_, fun hinv => ?_⟩
      · simp only [acceptBatch_eq hinv]
        exact hresolve.inv hinv
      · refine final_updateWhere (fun other hp => ?_) hrow hfinal
        simp only [DeliveryRow.dispatchedBy, Bool.and_eq_true, decide_eq_true_eq] at hp
        rw [hp.1.1.2]
        rfl
      · simp only [acceptBatch_eq hinv]
        exact hresolve.ids hinv

/-- The state of a row after a failure. -/
theorem failedRow_secret (hkept : row.payload.isSome = true) (count : ℕ) (errorCode : String)
    (ambiguous : Bool) (decision : FailureDecision) :
    (row.failedRow count errorCode ambiguous now decision).SecretKept := by
  obtain ⟨retryable, terminalExpired⟩ := decision
  cases retryable with
  | true => exact hkept
  | false => cases terminalExpired <;> rfl

theorem failedRow_link (row : DeliveryRow) (count : ℕ) (errorCode : String) (ambiguous : Bool)
    (decision : FailureDecision) :
    (row.failedRow count errorCode ambiguous now decision).link = none := by
  obtain ⟨retryable, terminalExpired⟩ := decision
  cases retryable with
  | true => rfl
  | false => cases terminalExpired <;> rfl

theorem tablesStep_settleBatch (fromState : FailureState) (errorCode : String) (ambiguous : Bool)
    (decision : FailureDecision) :
    TablesStep [] t (settleBatch delivery fromState errorCode ambiguous now decision t) := by
  cases fromState with
  | leased =>
      have hleased : ∀ row : DeliveryRow, row.failsFrom delivery .leased = true →
          row.state = .leased := by
        intro row h
        simp only [DeliveryRow.failsFrom, Bool.and_eq_true, decide_eq_true_eq] at h
        exact h.1.2
      refine DeliveryStep.update (fun _ => rfl) (fun row h => by rw [hleased row h]; rfl)
        (fun row h hsecret => failedRow_secret ?_ _ _ _ _) fun row h => ?_
      · rw [hsecret, hleased row h]
        rfl
      · rw [failedRow_link, DeliveryRow.link, hleased row h]
  | dispatching =>
      refine DeliveryStep.resolve (fun _ => rfl) (fun _ => rfl) (fun _ => rfl)
        (fun row hstate hsecret => failedRow_secret ?_ _ _ _ _) fun row attempt _ => ?_
      · rw [hsecret, hstate]
        rfl
      · rw [failedRow_link]
        cases ambiguous <;> rfl

theorem tablesStep_settle (fromState : FailureState) (errorCode : String) (ambiguous : Bool)
    (allowExpiredLease : Bool) (seen : RecoveryTables) :
    TablesStep [] t
      (settleFailure delivery fromState errorCode ambiguous now allowExpiredLease seen t) := by
  rw [settleFailure]
  split
  · exact .refl
  · exact tablesStep_settleBatch _ _ _ _

/-! ### Every event -/

/-- **What an event does to the deliveries**, whatever its arguments. -/
theorem deliveryStep_tablesAfter (past : List RecoveryTables) (t : RecoveryTables)
    (e : RecoveryEvent) : TablesStep (passes t e) t (tablesAfter past t e) := by
  cases e with
  | setUsers users =>
      rw [tablesAfter]
      split <;> exact .refl
  | setJobs jobs =>
      rw [tablesAfter]
      split <;> exact .refl
  | setEnabled enabled => exact .refl
  | issue record lease draw mailOrigin url expiresAt => exact tablesStep_issue _ _ _
  | consume input nonce auditId ago =>
      rw [tablesAfter, consume]
      cases findToken input ((t :: past)[ago]?.getD t) with
      | none => exact .refl
      | some record => exact tablesStep_consumeFound _ _ _ _
  | lease id leaseToken now => exact tablesStep_lease _ _ _
  | preflight delivery now seen => exact tablesStep_preflight _ _ _
  | park id leaseToken errorCode now => exact tablesStep_finishLeased _ _ _ _ _
  | fence delivery payloadExpiresAt now => exact tablesStep_fence
  | finishAtFence delivery payloadExpiresAt now seen => exact tablesStep_finishAtFence _ _ _ _
  | accept id leaseToken messageId now => exact tablesStep_accept _ _ _ _
  | settle delivery fromState errorCode ambiguous now allowExpiredLease seen =>
      exact tablesStep_settle _ _ _ _ _

/-- The invariant of the system: the deliveries', and that the attempts are the lease tokens that
have passed the fence. -/
structure FenceInv (s : RecoverySystem) : Prop where
  deliveries : DeliveryInv s.tables.outbox s.tables.attempts
  passed : s.tables.attempts.map DeliveryAttempt.attemptId = s.passed

theorem fenceInv_systemStep (s : RecoverySystem) (e : RecoveryEvent) (h : FenceInv s) :
    FenceInv (systemStep s e) := by
  have hstep := deliveryStep_tablesAfter s.past s.tables e
  refine ⟨hstep.inv h.deliveries, ?_⟩
  rw [systemStep, ← h.passed]
  exact hstep.ids h.deliveries

theorem fenceInv_after (events : List RecoveryEvent) : FenceInv (after events) := by
  refine run_invariant fenceInv_systemStep ⟨⟨?_, ?_, ?_, ?_, ?_⟩, rfl⟩ events
  · exact List.nodup_nil
  · exact List.nodup_nil
  · exact fun row h => by cases h
  · exact fun attempt h => by cases h
  · exact fun row h => by cases h

/-- A finished row stays as it is. -/
theorem final_run (hfinal : row.state.final = true) (s : RecoverySystem)
    (hrow : row ∈ s.tables.outbox) (events : List RecoveryEvent) :
    row ∈ (run systemStep s events).tables.outbox :=
  @run_invariant _ _ systemStep s (fun s => row ∈ s.tables.outbox)
    (fun s e h => (deliveryStep_tablesAfter s.past s.tables e).final row h hfinal) hrow events

/-! ### The states that are reached -/

/-- The attempts of a row in a state. -/
def attemptsIn (state : AttemptState) (row : DeliveryRow) (attempts : List DeliveryAttempt) :
    List DeliveryAttempt :=
  attempts.filter fun attempt => decide (attempt.outboxId = row.id) &&
    decide (attempt.state = state)

theorem mem_attemptsIn :
    attempt ∈ attemptsIn state row attempts ↔
      attempt ∈ attempts ∧ attempt.outboxId = row.id ∧ attempt.state = state := by
  rw [attemptsIn, List.mem_filter, Bool.and_eq_true, decide_eq_true_eq, decide_eq_true_eq]

/-- What is known of a row and its attempts. -/
structure RowFenced (row : DeliveryRow) (attempts : List DeliveryAttempt) : Prop where
  dispatching : row.state = .dispatching ↔ ∃ attempt, attempt ∈ attemptsIn .dispatching row attempts
  dispatchingId : ∀ attempt ∈ attemptsIn .dispatching row attempts,
    row.leaseToken = some attempt.attemptId
  oneDispatching : (attemptsIn .dispatching row attempts).length ≤ 1
  oneAccepted : (attemptsIn .accepted row attempts).length ≤ 1
  accepted : row.state = .accepted ↔ ∃ attempt, attempt ∈ attemptsIn .accepted row attempts
  acceptedId : ∀ attempt ∈ attemptsIn .accepted row attempts,
    row.acceptedAttemptId = some attempt.attemptId
  secret : row.payload.isSome = true ↔ row.state = .pending ∨ row.state = .leased ∨
    row.state = .dispatching ∨ row.state = .parked

section

variable (h : DeliveryInv outbox attempts)
include h

/-- A row is bound by every attempt of it that has a link. -/
theorem DeliveryInv.bound (hrow : row ∈ outbox) (hattempt : attempt ∈ attempts)
    (hid : attempt.outboxId = row.id) (hne : attempt.link ≠ none) : Bound attempt row := by
  obtain ⟨other, hother, hbound⟩ := h.attemptBound attempt hattempt hne
  obtain rfl : other = row :=
    eq_of_key_eq h.rowIds hother hrow (hbound.id.symm.trans hid)
  exact hbound

theorem length_attemptsIn_le {token : Option String}
    (hkey : ∀ attempt ∈ attemptsIn state row attempts, token = some attempt.attemptId) :
    (attemptsIn state row attempts).length ≤ 1 := by
  rw [attemptsIn, ← List.countP_eq_length_filter]
  refine countP_le_one_of_key h.attemptIds fun attempt hattempt other hother hp hp' => ?_
  have hfirst := hkey attempt (List.mem_filter.mpr ⟨hattempt, hp⟩)
  have hsecond := hkey other (List.mem_filter.mpr ⟨hother, hp'⟩)
  exact Option.some.inj (hfirst.symm.trans hsecond)

theorem rowFenced (hrow : row ∈ outbox) : RowFenced row attempts := by
  have hdispatching : ∀ attempt ∈ attemptsIn .dispatching row attempts,
      row.state = .dispatching ∧ row.leaseToken = some attempt.attemptId := by
    intro attempt hattempt
    obtain ⟨hmem, hid, hstate⟩ := mem_attemptsIn.mp hattempt
    have hlink := attempt_link_of_dispatching hstate
    have hbound := h.bound hrow hmem hid (by rw [hlink]; exact Option.some_ne_none _)
    exact link_eq_dispatching (hbound.link.symm.trans hlink)
  have haccepted : ∀ attempt ∈ attemptsIn .accepted row attempts,
      row.state = .accepted ∧ row.acceptedAttemptId = some attempt.attemptId := by
    intro attempt hattempt
    obtain ⟨hmem, hid, hstate⟩ := mem_attemptsIn.mp hattempt
    have hlink := attempt_link_of_accepted hstate
    have hbound := h.bound hrow hmem hid (by rw [hlink]; exact Option.some_ne_none _)
    exact link_eq_accepted (hbound.link.symm.trans hlink)
  refine
    { dispatching :=
      ⟨fun hstate => ?_, fun ⟨attempt, hattempt⟩ => (hdispatching attempt hattempt).1⟩
      dispatchingId := fun attempt hattempt => (hdispatching attempt hattempt).2
      oneDispatching := length_attemptsIn_le h fun attempt hattempt =>
        (hdispatching attempt hattempt).2
      oneAccepted := length_attemptsIn_le h fun attempt hattempt => (haccepted attempt hattempt).2
      accepted := ⟨fun hstate => ?_, fun ⟨attempt, hattempt⟩ => (haccepted attempt hattempt).1⟩
      acceptedId := fun attempt hattempt => (haccepted attempt hattempt).2
      secret := ?_ }
  · have hlink := link_of_dispatching hstate
    obtain ⟨attempt, hattempt, hbound⟩ :=
      h.rowBound row hrow (by rw [hlink]; exact Option.some_ne_none _)
    have hstate' := (attempt_link_eq_dispatching (hbound.link.trans hlink)).1
    exact ⟨attempt, mem_attemptsIn.mpr ⟨hattempt, hbound.id, hstate'⟩⟩
  · have hlink := link_of_accepted hstate
    obtain ⟨attempt, hattempt, hbound⟩ :=
      h.rowBound row hrow (by rw [hlink]; exact Option.some_ne_none _)
    have hstate' := (attempt_link_eq_accepted (hbound.link.trans hlink)).1
    exact ⟨attempt, mem_attemptsIn.mpr ⟨hattempt, hbound.id, hstate'⟩⟩
  · have hsecret := h.secret row hrow
    rw [DeliveryRow.SecretKept] at hsecret
    rw [hsecret]
    cases row.state <;> simp [DeliveryState.keepsSecret]

end

/-- What holds of the mail that a worker may send. -/
structure MaySend (delivery : LeasedDelivery) (now : ℤ) (t : RecoveryTables) (row : DeliveryRow)
    (token : RecoveryToken) (u : User) : Prop where
  rowFound : row ∈ t.outbox ∧ row.id = delivery.id
  leased : row.state = .leased ∧ row.leaseToken = some delivery.leaseToken
  tokenFound : token ∈ t.tokens ∧ token.id = row.tokenId
  unconsumed : token.consumedAt = none
  valid : now + minimumValidityMs < token.expiresAt
  userFound : u ∈ t.users ∧ u.id = token.userId
  eligible : u.eligible token.purpose = true

theorem maySend_of_fenceOpens (h : fenceOpens delivery payloadExpiresAt now t = true) :
    ∃ row token u, MaySend delivery now t row token u := by
  rw [fenceOpens] at h
  cases hfence : fenceDispatch delivery payloadExpiresAt now t with
  | error e =>
      rw [hfence] at h
      cases h
  | ok result =>
      rw [hfence] at h
      simp only [fenceDispatch, bind_eq_ok, pure_eq_ok] at hfence
      obtain ⟨t', -, rfl⟩ := hfence
      rw [decide_eq_true_eq, Prod.mk.injEq] at h
      have hpos : 0 < t.outbox.countP fun row => row.passes delivery payloadExpiresAt now t := by
        omega
      obtain ⟨row, hrow, hp⟩ := List.countP_pos_iff.mp hpos
      obtain ⟨hid, hstate, hlease⟩ := leasedBy_state (leased_of_passes hp)
      simp only [DeliveryRow.passes, Bool.and_eq_true] at hp
      obtain ⟨token, htoken, husable⟩ := List.any_eq_true.mp hp.2
      simp only [Bool.and_eq_true, decide_eq_true_eq, Option.isNone_iff_eq_none,
        RecoveryToken.outlasts] at husable
      obtain ⟨⟨⟨⟨htokenId, hopen⟩, -⟩, hvalid⟩, husers⟩ := husable
      obtain ⟨u, hu, heligible⟩ := List.any_eq_true.mp husers
      rw [Bool.and_eq_true, decide_eq_true_eq] at heligible
      exact ⟨row, token, u, ⟨hrow, hid⟩, ⟨hstate, hlease⟩, ⟨htoken, htokenId⟩, hopen, hvalid,
        ⟨hu, heligible.1⟩, heligible.2⟩

/-- **Recovery mails are fenced.** In every state that is reached, the attempts of each row are as
the row says; a lease token has passed the fence once at most, and passes only for a mail that may
be sent; and a row that is finished stays as it is. -/
theorem recovery_fence (events : List RecoveryEvent) :
    (∀ row ∈ (after events).tables.outbox, RowFenced row (after events).tables.attempts) ∧
      (after events).passed.Nodup ∧
      (∀ delivery payloadExpiresAt now,
        fenceOpens delivery payloadExpiresAt now (after events).tables = true →
          ∃ row token u, MaySend delivery now (after events).tables row token u) ∧
      ∀ row ∈ (after events).tables.outbox, row.state.final = true →
        ∀ more, row ∈ (after (events ++ more)).tables.outbox := by
  have hinv := fenceInv_after events
  refine ⟨fun row hrow => rowFenced hinv.deliveries hrow, ?_,
    fun delivery payloadExpiresAt now h => maySend_of_fenceOpens h, fun row hrow hfinal more => ?_⟩
  · rw [← hinv.passed]
    exact hinv.deliveries.attemptIds
  · rw [after, run_append]
    exact final_run hfinal _ hrow more

end MailPortal.Recovery
