import MailPortal.Recovery.Issue

/-!
# Issuing is All or Nothing

The condition that every statement of the batch repeats reads the users, the jobs and, of the
tokens, only which exist and when they were issued. The statements before the insertion change none
of it, and from the insertion on the new token itself makes it true. So all six statements act or
none does, and of the four that settle the request at most one finds it still leased.

Main results:

* `writeIssue_of_condition`, `writeIssue_of_not` : the six statements, when the condition holds and
  when it does not.
* `settleRequest_of_condition`, `settleRequest_of_not` : the request.
-/

namespace MailPortal.Recovery

open Failure Table

variable {record : CredentialRecoveryIssue} {lease : Option RequestLease} {draw : IssueDraw}
  {t t' : RecoveryTables}
variable {result : ℕ × RecoveryTables} {f : RequestJob → RequestJob}
variable {job : RequestJob} {p : RequestJob → Bool}

/-! ### What the condition reads -/

/-- What the condition reads of a token. -/
def RecoveryToken.issueData (token : RecoveryToken) : String × String × ℤ :=
  (token.id, token.userId, token.createdAt)

theorem recentTokens_length (record : CredentialRecoveryIssue) (t : RecoveryTables) :
    (recentTokens record t).length = (t.tokens.map RecoveryToken.issueData).countP fun token =>
      decide (token.2.1 = record.userId) &&
        decide (record.createdAt - ISSUE_WINDOW_MS < token.2.2) := by
  rw [recentTokens, ← List.countP_eq_length_filter, List.countP_map]
  rfl

theorem tokenExists_eq (id : String) (t : RecoveryTables) :
    tokenExists id t = (t.tokens.map RecoveryToken.issueData).any fun token =>
      decide (token.1 = id) := by
  rw [tokenExists, List.any_map]
  rfl

/-- **The frame of the condition.** -/
theorem issueCondition_congr (husers : t'.users = t.users) (hjobs : t'.jobs = t.jobs)
    (htokens : t'.tokens.map RecoveryToken.issueData = t.tokens.map RecoveryToken.issueData) :
    issueCondition record lease t' = issueCondition record lease t := by
  have hlease : leaseHolds record lease t' = leaseHolds record lease t := by
    cases lease with
    | none => rfl
    | some l => simp only [leaseHolds, hjobs]
  simp only [issueCondition, hlease, eligible, husers, recentTokens_length, tokenExists_eq, htokens]

/-- Once the token is there the condition holds, whatever the rate. -/
theorem issueCondition_inserted (h : issueCondition record lease t = true)
    (husers : t'.users = t.users) (hjobs : t'.jobs = t.jobs)
    (htoken : tokenExists record.id t' = true) : issueCondition record lease t' = true := by
  simp only [issueCondition, Bool.and_eq_true] at h ⊢
  obtain ⟨⟨hlease, heligible⟩, -⟩ := h
  have hlease' : leaseHolds record lease t' = leaseHolds record lease t := by
    cases lease with
    | none => rfl
    | some l => simp only [leaseHolds, hjobs]
  refine ⟨⟨hlease'.trans hlease, ?_⟩, by rw [htoken, Bool.or_true]⟩
  simp only [eligible, husers]
  exact heligible

/-! ### The six statements -/

/-- The user's open tokens are consumed. -/
def withConsumed (record : CredentialRecoveryIssue) (tokens : List RecoveryToken) :
    List RecoveryToken :=
  updateWhere (fun token => token.openOf record.userId)
    (fun token => { token with consumedAt := some record.createdAt }) tokens

theorem issueData_withConsumed (tokens : List RecoveryToken) :
    (withConsumed record tokens).map RecoveryToken.issueData =
      tokens.map RecoveryToken.issueData :=
  map_key_updateWhere fun _ => rfl

/-- The user's mails that wait are cancelled, and those that are being sent are marked. -/
def withSuperseded (record : CredentialRecoveryIssue) (t : RecoveryTables) : List DeliveryRow :=
  updateWhere
    (fun row => row.carriesTokenOf record.userId t && decide (row.state = .dispatching))
    (fun row => row.markedRow "SUPERSEDED" record.createdAt)
    (updateWhere (fun row => row.carriesTokenOf record.userId t && row.waiting)
      (fun row => row.cancelledRow "SUPERSEDED" record.createdAt) t.outbox)

/-- The tables after an issue. -/
def issuedTables (record : CredentialRecoveryIssue) (draw : IssueDraw) (t : RecoveryTables) :
    RecoveryTables :=
  { t with
    tokens := withConsumed record t.tokens ++ [issuedToken record]
    audit := t.audit ++ [issueAudit record draw]
    outbox := withSuperseded record t ++ [pendingRow record draw] }

theorem carriesTokenOf_congr {userId : String} (row : DeliveryRow)
    (htokens : t'.tokens.map RecoveryToken.issueData = t.tokens.map RecoveryToken.issueData) :
    row.carriesTokenOf userId t' = row.carriesTokenOf userId t := by
  have heq : ∀ t : RecoveryTables, row.carriesTokenOf userId t =
      (t.tokens.map RecoveryToken.issueData).any fun token =>
        decide (token.2.1 = userId) && decide (token.1 = row.tokenId) := by
    intro t
    rw [DeliveryRow.carriesTokenOf, List.any_map]
    rfl
  rw [heq, heq, htokens]

/-! #### The insertions -/

theorem insertToken_of_not (h : issueCondition record lease t = false) :
    insertToken record lease t = .ok (0, t) := by
  rw [insertToken, if_neg (by rw [h]; decide)]
  rfl

theorem insertToken_of_condition (h : issueCondition record lease t = true) :
    insertToken record lease t = .ok result ↔
      ((tokenExists record.id t = false ∧
          ∀ token ∈ t.tokens, token.tokenHash ≠ record.tokenHash) ∧
        userExists record.userId t = true ∧
          record.issuedBy.all (fun id => userExists id t) = true) ∧
      result = (1, { t with tokens := t.tokens ++ [issuedToken record] }) := by
  rw [insertToken, if_pos h]
  simp only [bind_eq_ok, require_eq_ok, pure_eq_ok, Bool.and_eq_true, Bool.not_eq_true',
    List.all_eq_true, decide_eq_true_eq]
  constructor
  · rintro ⟨-, hnew, -, husers, rfl⟩
    exact ⟨⟨hnew, husers⟩, rfl⟩
  · rintro ⟨⟨hnew, husers⟩, rfl⟩
    exact ⟨(), hnew, (), husers, rfl⟩

theorem insertAudit_of_not (row : AuditRow) : insertAudit row false t = .ok (0, t) := by
  rw [insertAudit, if_neg Bool.false_ne_true]
  rfl

theorem insertAudit_of_condition {row : AuditRow} :
    insertAudit row true t = .ok result ↔
      ((∀ other ∈ t.audit, other.id ≠ row.id) ∧ userExists row.userId t = true ∧
        row.actorUserId.all (fun id => userExists id t) = true) ∧
      result = (1, { t with audit := t.audit ++ [row] }) := by
  rw [insertAudit, if_pos rfl]
  simp only [bind_eq_ok, require_eq_ok, pure_eq_ok, Bool.and_eq_true, List.all_eq_true,
    decide_eq_true_eq]
  constructor
  · rintro ⟨-, hnew, -, husers, rfl⟩
    exact ⟨⟨hnew, husers⟩, rfl⟩
  · rintro ⟨⟨hnew, husers⟩, rfl⟩
    exact ⟨(), hnew, (), husers, rfl⟩

theorem insertDelivery_of_not (h : issueCondition record lease t = false) :
    insertDelivery record lease draw t = .ok (0, t) := by
  rw [insertDelivery, if_neg (by rw [h]; decide)]
  rfl

theorem insertDelivery_of_condition (h : issueCondition record lease t = true) :
    insertDelivery record lease draw t = .ok result ↔
      ((∀ row ∈ t.outbox, row.id ≠ draw.deliveryId ∧ row.tokenId ≠ record.id) ∧
        tokenExists record.id t = true) ∧
      result = (1, { t with outbox := t.outbox ++ [pendingRow record draw] }) := by
  rw [insertDelivery, if_pos h]
  simp only [bind_eq_ok, require_eq_ok, pure_eq_ok, Bool.and_eq_true, List.all_eq_true,
    decide_eq_true_eq]
  constructor
  · rintro ⟨-, hnew, -, htoken, rfl⟩
    exact ⟨⟨hnew, htoken⟩, rfl⟩
  · rintro ⟨⟨hnew, htoken⟩, rfl⟩
    exact ⟨(), hnew, (), htoken, rfl⟩

/-! #### Together -/

/-- **When the condition fails nothing is written.** -/
theorem writeIssue_of_not (h : issueCondition record lease t = false) :
    writeIssue record lease draw t = .ok (⟨0, 0, 0⟩, t) := by
  have hconsume : consumeEarlier record lease t = t := by
    simp only [consumeEarlier, h, Bool.and_false]
    rw [updateWhere_eq_self fun _ _ => rfl]
  have hcancel : cancelWaiting record lease t = t := by
    simp only [cancelWaiting, h, Bool.and_false]
    rw [updateWhere_eq_self fun _ _ => rfl]
  have hmark : markDispatching record lease t = t := by
    simp only [markDispatching, h, Bool.and_false]
    rw [updateWhere_eq_self fun _ _ => rfl]
  simp only [writeIssue, hconsume, hcancel, hmark, insertToken_of_not h, ok_bind, h,
    insertAudit_of_not, insertDelivery_of_not h]
  rfl

/-- The three updates, when the condition holds. -/
theorem updates_of_condition (h : issueCondition record lease t = true) :
    markDispatching record lease (cancelWaiting record lease (consumeEarlier record lease t)) =
      { t with
        tokens := withConsumed record t.tokens
        outbox := withSuperseded record t } := by
  have hconsume : consumeEarlier record lease t =
      { t with tokens := withConsumed record t.tokens } := by
    simp only [consumeEarlier, h, Bool.and_true]
    rfl
  have hdata : ∀ outbox : List DeliveryRow, issueCondition record lease
      { t with tokens := withConsumed record t.tokens, outbox := outbox } = true := by
    intro outbox
    rw [← h]
    exact issueCondition_congr rfl rfl (issueData_withConsumed t.tokens)
  have hcarries : ∀ (outbox : List DeliveryRow) (row : DeliveryRow),
      row.carriesTokenOf record.userId
          { t with tokens := withConsumed record t.tokens, outbox := outbox } =
        row.carriesTokenOf record.userId t :=
    fun outbox row => carriesTokenOf_congr row (issueData_withConsumed t.tokens)
  rw [hconsume]
  simp only [cancelWaiting, markDispatching, hdata, hcarries, Bool.and_true]
  rfl

/-- The names of an issue are new, and the accounts that it names exist. -/
structure Insertable (record : CredentialRecoveryIssue) (draw : IssueDraw)
    (t : RecoveryTables) : Prop where
  tokenId : tokenExists record.id t = false
  tokenHash : ∀ token ∈ t.tokens, token.tokenHash ≠ record.tokenHash
  userExists : userExists record.userId t = true
  issuerExists : record.issuedBy.all (fun id => Recovery.userExists id t) = true
  auditId : ∀ row ∈ t.audit, row.id ≠ draw.auditId
  delivery : ∀ row ∈ t.outbox, row.id ≠ draw.deliveryId ∧ row.tokenId ≠ record.id

theorem tokenExists_withConsumed (id : String) (outbox : List DeliveryRow) :
    tokenExists id { t with tokens := withConsumed record t.tokens, outbox := outbox } =
      tokenExists id t := by
  rw [tokenExists_eq, tokenExists_eq]
  exact congrArg (List.any · _) (issueData_withConsumed t.tokens)

theorem hash_new_withConsumed (tokenHash : String) (tokens : List RecoveryToken) :
    (∀ token ∈ withConsumed record tokens, token.tokenHash ≠ tokenHash) ↔
      ∀ token ∈ tokens, token.tokenHash ≠ tokenHash := by
  have hkeys : (withConsumed record tokens).map RecoveryToken.tokenHash =
      tokens.map RecoveryToken.tokenHash :=
    map_key_updateWhere fun _ => rfl
  rw [← @List.forall_mem_map _ _ RecoveryToken.tokenHash _ (· ≠ tokenHash), hkeys,
    List.forall_mem_map]

/-- What a new delivery is checked against. -/
def DeliveryRow.keys (row : DeliveryRow) : String × String := (row.id, row.tokenId)

theorem keys_withSuperseded (record : CredentialRecoveryIssue) (t : RecoveryTables) :
    (withSuperseded record t).map DeliveryRow.keys = t.outbox.map DeliveryRow.keys := by
  have hmarked : ∀ row : DeliveryRow,
      (row.markedRow "SUPERSEDED" record.createdAt).keys = row.keys := fun _ => rfl
  have hcancelled : ∀ row : DeliveryRow,
      (row.cancelledRow "SUPERSEDED" record.createdAt).keys = row.keys := fun _ => rfl
  rw [withSuperseded, map_key_updateWhere hmarked, map_key_updateWhere hcancelled]

theorem keys_new_withSuperseded (id tokenId : String) (t : RecoveryTables) :
    (∀ row ∈ withSuperseded record t, row.id ≠ id ∧ row.tokenId ≠ tokenId) ↔
      ∀ row ∈ t.outbox, row.id ≠ id ∧ row.tokenId ≠ tokenId := by
  have hmap : ∀ rows : List DeliveryRow, (∀ row ∈ rows, row.id ≠ id ∧ row.tokenId ≠ tokenId) ↔
      ∀ key ∈ rows.map DeliveryRow.keys, key.1 ≠ id ∧ key.2 ≠ tokenId := by
    intro rows
    rw [List.forall_mem_map]
    rfl
  rw [hmap, hmap, keys_withSuperseded]

/-- **When the condition holds all six statements act**, or a name is not new and none does. -/
theorem writeIssue_of_condition (h : issueCondition record lease t = true)
    {result : IssueChanges × RecoveryTables} :
    writeIssue record lease draw t = .ok result ↔
      Insertable record draw t ∧ result = (⟨1, 1, 1⟩, issuedTables record draw t) := by
  have hupdated : issueCondition record lease { t with
      tokens := withConsumed record t.tokens
      outbox := withSuperseded record t } = true := by
    rw [← h]
    exact issueCondition_congr rfl rfl (issueData_withConsumed t.tokens)
  have hexists : ∀ audit : List AuditRow, tokenExists record.id { t with
      tokens := withConsumed record t.tokens ++ [issuedToken record]
      audit := audit
      outbox := withSuperseded record t } = true := by
    intro audit
    simp [tokenExists, issuedToken]
  have hinserted : ∀ audit : List AuditRow, issueCondition record lease { t with
      tokens := withConsumed record t.tokens ++ [issuedToken record]
      audit := audit
      outbox := withSuperseded record t } = true :=
    fun audit => issueCondition_inserted h rfl rfl (hexists audit)
  simp only [writeIssue, updates_of_condition h, bind_eq_ok, pure_eq_ok]
  constructor
  · rintro ⟨inserted, htoken, audited, haudit, delivered, hdelivery, rfl⟩
    obtain ⟨⟨⟨hid, hhash⟩, huser, hissuer⟩, rfl⟩ := (insertToken_of_condition hupdated).mp htoken
    simp only [hinserted] at haudit
    obtain ⟨⟨hauditId, -⟩, rfl⟩ := insertAudit_of_condition.mp haudit
    obtain ⟨⟨hnew, -⟩, rfl⟩ := (insertDelivery_of_condition (hinserted _)).mp hdelivery
    rw [tokenExists_withConsumed] at hid
    exact ⟨⟨hid, (hash_new_withConsumed _ _).mp hhash, huser, hissuer, hauditId,
      (keys_new_withSuperseded _ _ _).mp hnew⟩, rfl⟩
  · rintro ⟨hnames, rfl⟩
    refine ⟨_, (insertToken_of_condition hupdated).mpr ⟨⟨⟨?_, ?_⟩, hnames.userExists,
      hnames.issuerExists⟩, rfl⟩, ?_⟩
    · rw [tokenExists_withConsumed]
      exact hnames.tokenId
    · exact (hash_new_withConsumed _ _).mpr hnames.tokenHash
    simp only [hinserted]
    exact ⟨_, insertAudit_of_condition.mpr ⟨⟨hnames.auditId, hnames.userExists,
      hnames.issuerExists⟩, rfl⟩, _, (insertDelivery_of_condition (hinserted _)).mpr
      ⟨⟨(keys_new_withSuperseded _ _ _).mpr hnames.delivery, hexists _⟩, rfl⟩, rfl⟩

theorem issueCondition_issuedTables (h : issueCondition record lease t = true) :
    issueCondition record lease (issuedTables record draw t) = true :=
  issueCondition_inserted h rfl rfl (by simp [tokenExists, issuedTables, issuedToken])

/-! ### The request -/

variable {l : RequestLease}

/-- No job is held by the lease. -/
def NoneHeld (l : RequestLease) (t : RecoveryTables) : Prop :=
  ∀ job ∈ t.jobs, job.heldBy l = false

/-- The jobs with the job of the lease changed. -/
def withJob (l : RequestLease) (f : RequestJob → RequestJob) (t : RecoveryTables) :
    RecoveryTables :=
  { t with jobs := updateWhere (fun job => decide (job.id = l.jobId)) f t.jobs }

theorem heldBy_id (h : job.heldBy l = true) : job.id = l.jobId := by
  simp only [RequestJob.heldBy, Bool.and_eq_true, decide_eq_true_eq] at h
  exact h.1.1

theorem updateJobs_none (h : ∀ job ∈ t.jobs, p job = false) : updateJobs p f t = (0, t) := by
  have hcount : t.jobs.countP p = 0 :=
    List.countP_eq_zero.mpr fun job hjob => by rw [h job hjob]; decide
  rw [updateJobs, hcount, updateWhere_eq_self h]

/-- An update of the job that holds the lease, and of no other. -/
theorem updateJobs_held (hids : (t.jobs.map RequestJob.id).Nodup) (hjob : job ∈ t.jobs)
    (hheld : job.heldBy l = true) (hp : p job = true)
    (hother : ∀ other, other.heldBy l = false → p other = false) :
    updateJobs p f t = (1, withJob l f t) := by
  have hkey : ∀ other, p other = true → other.id = job.id := by
    intro other hpo
    rw [heldBy_id hheld]
    refine heldBy_id (Bool.not_eq_false _ ▸ fun hnot => ?_)
    rw [hother other hnot] at hpo
    cases hpo
  rw [updateJobs, countP_of_key hids hjob hp hkey, updateWhere_of_key hids hjob hp hkey,
    heldBy_id hheld]
  rfl

theorem noneHeld_withJob (hf : ∀ job, (f job).state ≠ .leased) : NoneHeld l (withJob l f t) := by
  intro job hjob
  rcases mem_updateWhere.mp hjob with ⟨old, -, -, rfl⟩ | ⟨-, hnot⟩
  · simp [RequestJob.heldBy, hf old]
  · rw [decide_eq_false_iff_not] at hnot
    rw [← Bool.not_eq_true]
    exact fun hheld => hnot (heldBy_id hheld)

section

variable (h : NoneHeld l t)
include h

/-- The four statements have nothing to do when nobody holds the lease. -/
theorem updateJobs_noneHeld (q : RequestJob → Bool) (f : RequestJob → RequestJob) :
    updateJobs (fun job => job.heldBy l && q job) f t = (0, t) :=
  updateJobs_none fun job hjob => by rw [h job hjob, Bool.false_and]

theorem completeJob_noneHeld : completeJob record l t = (0, t) :=
  updateJobs_noneHeld h _ _

theorem suppressJob_noneHeld : suppressJob record l t = (0, t) :=
  updateJobs_noneHeld h _ _

theorem expireJob_noneHeld : expireJob record l t = (0, t) :=
  updateJobs_noneHeld h _ _

theorem postponeJob_noneHeld : postponeJob record l t = (0, t) :=
  updateJobs_noneHeld h _ _

end

/-- A job that is settled does not hold its lease. -/
theorem noneHeld_settled {state : JobState} (hstate : state ≠ .leased) (errorCode : Option String)
    (now : ℤ) : NoneHeld l (withJob l (fun job => job.settled state errorCode now) t) :=
  noneHeld_withJob fun _ => hstate

/-- A request whose token is issued is completed, and then left alone. -/
theorem settleRequest_of_condition (hids : (t.jobs.map RequestJob.id).Nodup)
    (h : issueCondition record (some l) t = true) :
    settleRequest record l t = (⟨1, 0, 0, 0⟩,
      withJob l (fun job => job.settled .completed none record.createdAt) t) := by
  obtain ⟨job, hjob, hheld⟩ : ∃ job ∈ t.jobs, job.heldBy l = true := by
    have hlease : leaseHolds record (some l) t = true := by
      simp only [issueCondition, Bool.and_eq_true] at h
      exact h.1.1
    obtain ⟨job, hjob, hheld⟩ := List.any_eq_true.mp hlease
    rw [Bool.and_eq_true] at hheld
    exact ⟨job, hjob, hheld.1⟩
  have hcomplete : completeJob record l t =
      (1, withJob l (fun job => job.settled .completed none record.createdAt) t) :=
    updateJobs_held hids hjob hheld (by rw [hheld, h]; rfl)
      fun other hother => by rw [hother, Bool.false_and]
  have hnone : NoneHeld l (withJob l
      (fun job => job.settled .completed none record.createdAt) t) :=
    noneHeld_settled (by decide) none record.createdAt
  simp only [settleRequest, hcomplete, suppressJob_noneHeld hnone, expireJob_noneHeld hnone,
    postponeJob_noneHeld hnone]

/-- When the first of the recent tokens leaves the window is later than now. -/
theorem createdAt_lt_nextIssueAt (record : CredentialRecoveryIssue) (t : RecoveryTables) :
    record.createdAt < nextIssueAt record t := by
  rw [nextIssueAt]
  cases hmin : ((recentTokens record t).map RecoveryToken.createdAt).min? with
  | none =>
      rw [Option.map_none, Option.getD_none, ISSUE_WINDOW_MS]
      omega
  | some first =>
      obtain ⟨token, htoken, rfl⟩ := List.mem_map.mp (List.min?_mem hmin)
      have hrecent := (List.mem_filter.mp htoken).2
      rw [Bool.and_eq_true, decide_eq_true_eq, decide_eq_true_eq] at hrecent
      rw [Option.map_some, Option.getD_some]
      omega

/-- What an outcome says of the request, when no token is issued. -/
inductive RequestLeft (record : CredentialRecoveryIssue) (l : RequestLease)
    (t t' : RecoveryTables) : IssueOutcome → Prop
  | suppressed (job : RequestJob) (held : job ∈ t.jobs ∧ job.heldBy l = true)
      (after : t' = withJob l (fun job => job.settled .suppressed none record.createdAt) t) :
      RequestLeft record l t t' .suppressed
  | expired (job : RequestJob) (held : job ∈ t.jobs ∧ job.heldBy l = true)
      (after : t' = withJob l (fun job =>
        job.settled .expired (some "REQUEST_LIFETIME_EXPIRED") record.createdAt) t) :
      RequestLeft record l t t' .expired
  | rateLimited (job : RequestJob) (held : job ∈ t.jobs ∧ job.heldBy l = true)
      (nextAttemptAt : ℤ) (later : record.createdAt < nextAttemptAt)
      (after : t' = withJob l (fun job => job.postponed nextAttemptAt record.createdAt) t) :
      RequestLeft record l t t' .rateLimited
  | lost (after : t' = t) : RequestLeft record l t t' .lost

/-- **A request whose token is not issued** is left as the outcome says. -/
theorem settleRequest_of_not (hids : (t.jobs.map RequestJob.id).Nodup)
    (h : issueCondition record (some l) t = false) :
    ∃ changes t', settleRequest record l t = (changes, t') ∧
      RequestLeft record l t t' (classifyRequest changes) := by
  by_cases hheld : ∃ job ∈ t.jobs, job.heldBy l = true
  swap
  · have hnone : NoneHeld l t := by
      intro job hjob
      rw [← Bool.not_eq_true]
      exact fun hh => hheld ⟨job, hjob, hh⟩
    refine ⟨⟨0, 0, 0, 0⟩, t, ?_, .lost rfl⟩
    simp only [settleRequest, completeJob_noneHeld hnone, suppressJob_noneHeld hnone,
      expireJob_noneHeld hnone, postponeJob_noneHeld hnone]
  obtain ⟨job, hjob, hheld⟩ := hheld
  have hcomplete : completeJob record l t = (0, t) := by
    refine updateJobs_none fun other _ => ?_
    rw [h, Bool.and_false]
  by_cases heligible : eligible record t = true
  swap
  · have hsuppress : suppressJob record l t =
        (1, withJob l (fun job => job.settled .suppressed none record.createdAt) t) := by
      refine updateJobs_held hids hjob hheld ?_ fun other hother => by rw [hother, Bool.false_and]
      rw [hheld, Bool.true_and, Bool.not_eq_true']
      exact Bool.not_eq_true _ ▸ heligible
    have hnone : NoneHeld l (withJob l
        (fun job => job.settled .suppressed none record.createdAt) t) :=
      noneHeld_settled (by decide) none record.createdAt
    refine ⟨⟨0, 1, 0, 0⟩, _, ?_, .suppressed job ⟨hjob, hheld⟩ rfl⟩
    simp only [settleRequest, hcomplete, hsuppress, expireJob_noneHeld hnone,
      postponeJob_noneHeld hnone]
  have hsuppress : suppressJob record l t = (0, t) := by
    refine updateJobs_none fun other _ => ?_
    rw [heligible, Bool.not_true, Bool.and_false]
  by_cases hold : job.createdAt ≤ record.createdAt - maxAgeMs
  · have hexpire : expireJob record l t = (1, withJob l (fun job =>
        job.settled .expired (some "REQUEST_LIFETIME_EXPIRED") record.createdAt) t) := by
      refine updateJobs_held hids hjob hheld ?_ fun other hother => by rw [hother, Bool.false_and]
      rw [hheld, Bool.true_and, decide_eq_true_eq]
      exact hold
    have hnone : NoneHeld l (withJob l (fun job =>
        job.settled .expired (some "REQUEST_LIFETIME_EXPIRED") record.createdAt) t) :=
      noneHeld_settled (by decide) _ record.createdAt
    refine ⟨⟨0, 0, 1, 0⟩, _, ?_, .expired job ⟨hjob, hheld⟩ rfl⟩
    simp only [settleRequest, hcomplete, hsuppress, hexpire, postponeJob_noneHeld hnone]
  · -- the lease holds and the user is eligible, so that it is the rate that fails
    have hlease : leaseHolds record (some l) t = true := by
      refine List.any_eq_true.mpr ⟨job, hjob, ?_⟩
      rw [hheld, Bool.true_and, decide_eq_true_eq]
      omega
    simp only [issueCondition, hlease, heligible, Bool.true_and, Bool.or_eq_false_iff,
      decide_eq_false_iff_not] at h
    obtain ⟨hrate, hnew⟩ := h
    have hexpire : expireJob record l t = (0, t) := by
      refine updateJobs_none fun other hother => ?_
      cases hh : other.heldBy l with
      | false => rfl
      | true =>
          have hid : other = job :=
            eq_of_key_eq hids hother hjob ((heldBy_id hh).trans (heldBy_id hheld).symm)
          rw [hid, Bool.true_and, decide_eq_false_iff_not]
          exact hold
    have hpostpone : postponeJob record l t = (1, withJob l
        (fun job => job.postponed (nextIssueAt record t) record.createdAt) t) := by
      refine updateJobs_held hids hjob hheld ?_ fun other hother => by rw [hother, Bool.false_and]
      simp only [hheld, heligible, hnew, Bool.not_false, Bool.and_true, Bool.true_and,
        decide_eq_true_eq]
      omega
    refine ⟨⟨0, 0, 0, 1⟩, _, ?_, .rateLimited job ⟨hjob, hheld⟩ (nextIssueAt record t)
      (createdAt_lt_nextIssueAt record t) rfl⟩
    simp only [settleRequest, hcomplete, hsuppress, hexpire, hpostpone]

/-! ### The whole call -/

/-- The tables after an issue, with its request completed. -/
def settledIssue (record : CredentialRecoveryIssue) (lease : Option RequestLease)
    (draw : IssueDraw) (t : RecoveryTables) : RecoveryTables :=
  match lease with
  | none => issuedTables record draw t
  | some l => withJob l (fun job => job.settled .completed none record.createdAt)
      (issuedTables record draw t)

/-- The tables after a call that issues nothing. -/
def NotIssued (record : CredentialRecoveryIssue) (lease : Option RequestLease)
    (outcome : IssueOutcome) (t t' : RecoveryTables) : Prop :=
  match lease with
  | none => t' = t ∧ (outcome = .suppressed ∨ outcome = .rateLimited)
  | some l => RequestLeft record l t t' outcome

theorem classifyUser_cases (record : CredentialRecoveryIssue) (t : RecoveryTables) :
    classifyUser record t = .suppressed ∨ classifyUser record t = .rateLimited := by
  rw [classifyUser]
  split
  · exact .inl rfl
  · split
    · exact .inl rfl
    · exact .inr rfl

/-- The batch that issues. -/
theorem issueBatch_of_condition (hids : (t.jobs.map RequestJob.id).Nodup)
    (h : issueCondition record lease t = true)
    {result : IssueChanges × Option RequestChanges × RecoveryTables}
    (hok : issueBatch record lease draw t = .ok result) :
    Insertable record draw t ∧ ∃ request, result = (⟨1, 1, 1⟩, request,
      settledIssue record lease draw t) ∧
        (∀ changes, request = some changes → changes.completed = 1) := by
  rw [issueBatch, bind_eq_ok] at hok
  obtain ⟨written, hwritten, hok⟩ := hok
  obtain ⟨hnames, rfl⟩ := (writeIssue_of_condition h).mp hwritten
  refine ⟨hnames, ?_⟩
  cases lease with
  | none =>
      obtain rfl := pure_eq_ok.mp hok
      exact ⟨none, rfl, fun changes hchanges => by cases hchanges⟩
  | some l =>
      have hsettle : settleRequest record l (issuedTables record draw t) = (⟨1, 0, 0, 0⟩,
          withJob l (fun job => job.settled .completed none record.createdAt)
            (issuedTables record draw t)) :=
        settleRequest_of_condition hids (issueCondition_issuedTables h)
      simp only [hsettle, pure_eq_ok] at hok
      obtain rfl := hok
      refine ⟨some ⟨1, 0, 0, 0⟩, rfl, fun changes hchanges => ?_⟩
      rw [← Option.some.inj hchanges]

/-- The batch that issues nothing, without a request. -/
theorem issueBatch_none_of_not (h : issueCondition record none t = false) :
    issueBatch record none draw t = .ok (⟨0, 0, 0⟩, none, t) := by
  simp only [issueBatch, writeIssue_of_not h, ok_bind]
  rfl

/-- The batch that issues nothing settles its request. -/
theorem issueBatch_some_of_not (hids : (t.jobs.map RequestJob.id).Nodup)
    (h : issueCondition record (some l) t = false) :
    ∃ changes t', issueBatch record (some l) draw t = .ok (⟨0, 0, 0⟩, some changes, t') ∧
      RequestLeft record l t t' (classifyRequest changes) := by
  obtain ⟨changes, t', hsettle, hleft⟩ := settleRequest_of_not hids h
  refine ⟨changes, t', ?_, hleft⟩
  simp only [issueBatch, writeIssue_of_not h, ok_bind, hsettle]
  rfl

/-- A batch throws only over a name that is not new. -/
theorem issueBatch_error (hids : (t.jobs.map RequestJob.id).Nodup) {e : String}
    (herror : issueBatch record lease draw t = .error e) :
    issueCondition record lease t = true ∧ ¬Insertable record draw t := by
  cases h : issueCondition record lease t with
  | true =>
      refine ⟨rfl, fun hnames => ?_⟩
      have hwrite : writeIssue record lease draw t = .ok (⟨1, 1, 1⟩, issuedTables record draw t) :=
        (writeIssue_of_condition h).mpr ⟨hnames, rfl⟩
      rw [issueBatch, hwrite, ok_bind] at herror
      cases lease with
      | none => cases herror
      | some l => cases herror
  | false =>
      cases lease with
      | none =>
          rw [issueBatch_none_of_not h] at herror
          cases herror
      | some l =>
          obtain ⟨changes, t', hok, -⟩ := @issueBatch_some_of_not record draw t l hids h
          rw [hok] at herror
          cases herror

variable {mailOrigin : String} {url : RecoveryUrl} {expiresAt : ℤ}

/-- The link is one of this portal, for the time that the token is valid. -/
def targetValid (record : CredentialRecoveryIssue) (mailOrigin : String) (url : RecoveryUrl)
    (expiresAt : ℤ) : Bool :=
  url.valid mailOrigin && decide (expiresAt = record.expiresAt)

/-- What a call of `issue` returns and leaves behind. It throws only if its target is not valid or
its names are not new. -/
inductive IssueResult (record : CredentialRecoveryIssue) (lease : Option RequestLease)
    (draw : IssueDraw) (target : Bool) (t : RecoveryTables) :
    Except String (IssueOutcome × RecoveryTables) → RecoveryTables → Prop
  | thrown (e : String)
      (cause : target = false ∨
        issueCondition record lease t = true ∧ ¬Insertable record draw t) :
      IssueResult record lease draw target t (.error e) t
  | issued (condition : issueCondition record lease t = true)
      (names : Insertable record draw t) :
      IssueResult record lease draw target t (.ok (.issued, settledIssue record lease draw t))
        (settledIssue record lease draw t)
  | notIssued (outcome : IssueOutcome) (t' : RecoveryTables)
      (condition : issueCondition record lease t = false)
      (left : NotIssued record lease outcome t t') :
      IssueResult record lease draw target t (.ok (outcome, t')) t'

/-- **Issuing is all or nothing.** -/
theorem issue_result (hids : (t.jobs.map RequestJob.id).Nodup)
    (later : RecoveryTables → RecoveryTables) :
    IssueResult record lease draw (targetValid record mailOrigin url expiresAt) t
      (issue record lease draw mailOrigin url expiresAt later t)
      (issueTables record lease draw mailOrigin url expiresAt t) := by
  rw [issue, issueTables, targetValid]
  cases htarget : url.valid mailOrigin && decide (expiresAt = record.expiresAt) with
  | false => exact .thrown _ (.inl rfl)
  | true =>
      rw [if_pos rfl]
      change IssueResult record lease draw true t (Except.ok () >>= fun _ => _) _
      rw [ok_bind]
      cases hbatch : issueBatch record lease draw t with
      | error e => exact .thrown e (.inr (issueBatch_error hids hbatch))
      | ok result =>
          cases hcondition : issueCondition record lease t with
          | true =>
              obtain ⟨hnames, request, rfl, hcompleted⟩ :=
                issueBatch_of_condition hids hcondition hbatch
              simp only [ok_bind, and_self, if_true]
              cases request with
              | none => exact .issued hcondition hnames
              | some changes =>
                  simp only [hcompleted changes rfl, decide_true]
                  exact .issued hcondition hnames
          | false =>
              cases lease with
              | none =>
                  rw [issueBatch_none_of_not hcondition] at hbatch
                  cases hbatch
                  exact .notIssued _ t hcondition ⟨rfl, classifyUser_cases record _⟩
              | some l =>
                  obtain ⟨changes, t', hsame, hleft⟩ :
                      ∃ changes t', issueBatch record (some l) draw t =
                        .ok (⟨0, 0, 0⟩, some changes, t') ∧
                        RequestLeft record l t t' (classifyRequest changes) :=
                    issueBatch_some_of_not hids hcondition
                  rw [hbatch] at hsame
                  cases hsame
                  exact .notIssued _ t' hcondition hleft

end MailPortal.Recovery
