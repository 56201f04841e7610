import MailPortal.Lib.Runs
import MailPortal.Recovery.Consume
import MailPortal.Recovery.Delivery

/-!
# The System of Credential Recovery

Any number of workers issue, consume, lease, send and settle, each stopping where it likes and
coming back late. One event is what one call does between two of its pauses: a batch, or a single
statement, with whatever arguments the worker still holds. What a call has read earlier is an
argument of its event. For `consume` it is one of the states that the tables have gone through; a
decision on a mail may be made from any tables at all.

The accounts, the requests and the control row belong to others, who may set them as they like, as
long as the primary keys are kept.

Main definitions:

* `RecoveryEvent`, `tablesAfter` : the events, and what they do to the tables.
* `RecoverySystem`, `systemStep` : the tables with what has been seen, drawn and sent.
-/

namespace MailPortal.Recovery

open Failure Table Runs

/-- What happens to the tables. -/
inductive RecoveryEvent where
  | setUsers (users : List User)
  | setJobs (jobs : List RequestJob)
  | setEnabled (enabled : Bool)
  | issue (record : CredentialRecoveryIssue) (lease : Option RequestLease) (draw : IssueDraw)
      (mailOrigin : String) (url : RecoveryUrl) (expiresAt : ℤ)
  | consume (input : ConsumeInput) (nonce auditId : String) (ago : ℕ)
  | lease (id leaseToken : String) (now : ℤ)
  | preflight (delivery : LeasedDelivery) (now : ℤ) (seen : RecoveryTables)
  | park (id leaseToken errorCode : String) (now : ℤ)
  | fence (delivery : LeasedDelivery) (payloadExpiresAt now : ℤ)
  | finishAtFence (delivery : LeasedDelivery) (payloadExpiresAt now : ℤ) (seen : RecoveryTables)
  | accept (id leaseToken messageId : String) (now : ℤ)
  | settle (delivery : LeasedDelivery) (fromState : FailureState) (errorCode : String)
      (ambiguous : Bool) (now : ℤ) (allowExpiredLease : Bool) (seen : RecoveryTables)

/-- The tables that a batch leaves, which is rolled back when it throws. -/
def committed {α : Type} (t : RecoveryTables) : Except String (α × RecoveryTables) → RecoveryTables
  | .ok (_, t') => t'
  | .error _ => t

/-- What an event does to the tables; `past` are the tables before, the last first. -/
def tablesAfter (past : List RecoveryTables) (t : RecoveryTables) : RecoveryEvent → RecoveryTables
  | .setUsers users => if (users.map User.id).Nodup then { t with users := users } else t
  | .setJobs jobs => if (jobs.map RequestJob.id).Nodup then { t with jobs := jobs } else t
  | .setEnabled enabled => { t with enabled := enabled }
  | .issue record lease draw mailOrigin url expiresAt =>
      issueTables record lease draw mailOrigin url expiresAt t
  | .consume input nonce auditId ago =>
      committed t (consume input nonce auditId ((t :: past)[ago]?.getD t) t)
  | .lease id leaseToken now => (leaseDelivery id leaseToken now t).2
  | .preflight delivery now seen => preflightDelivery delivery now seen t
  | .park id leaseToken errorCode now =>
      (finishLeasedDelivery id leaseToken .parked errorCode now t).2
  | .fence delivery payloadExpiresAt now =>
      committed t (fenceDispatch delivery payloadExpiresAt now t)
  | .finishAtFence delivery payloadExpiresAt now seen =>
      finishAtFence delivery payloadExpiresAt now seen t
  | .accept id leaseToken messageId now => markAccepted id leaseToken messageId now t
  | .settle delivery fromState errorCode ambiguous now allowExpiredLease seen =>
      settleFailure delivery fromState errorCode ambiguous now allowExpiredLease seen t

/-- The nonces that an event draws. -/
def RecoveryEvent.nonces : RecoveryEvent → List String
  | .consume _ nonce _ _ => [nonce]
  | _ => []

/-- Both statements of the fence have changed a row: the worker may send. -/
def fenceOpens (delivery : LeasedDelivery) (payloadExpiresAt now : ℤ) (t : RecoveryTables) :
    Bool :=
  match fenceDispatch delivery payloadExpiresAt now t with
  | .ok (changes, _) => decide (changes = (1, 1))
  | .error _ => false

/-- The lease tokens that pass the fence with an event. -/
def passes (t : RecoveryTables) : RecoveryEvent → List String
  | .fence delivery payloadExpiresAt now =>
      if fenceOpens delivery payloadExpiresAt now t then [delivery.leaseToken] else []
  | _ => []

/-- The system: the tables, and next to them the tables of the past, the nonces that were drawn and
the lease tokens that have passed the fence. -/
structure RecoverySystem where
  tables : RecoveryTables
  past : List RecoveryTables
  drawn : List String
  passed : List String

namespace RecoverySystem

def init : RecoverySystem := ⟨RecoveryTables.empty, [], [], []⟩

end RecoverySystem

def systemStep (s : RecoverySystem) (e : RecoveryEvent) : RecoverySystem where
  tables := tablesAfter s.past s.tables e
  past := s.tables :: s.past
  drawn := s.drawn ++ e.nonces
  passed := s.passed ++ passes s.tables e

/-- The system after a list of events, from empty tables. -/
def after (events : List RecoveryEvent) : RecoverySystem :=
  run systemStep RecoverySystem.init events

/-! ### What the calls do to the tables -/

variable {record : CredentialRecoveryIssue} {lease : Option RequestLease} {draw : IssueDraw}
  {t : RecoveryTables}

theorem ids_settleRequest (record : CredentialRecoveryIssue) (l : RequestLease)
    (t : RecoveryTables) :
    (settleRequest record l t).2.jobs.map RequestJob.id = t.jobs.map RequestJob.id := by
  have hupdate : ∀ (p : RequestJob → Bool) (f : RequestJob → RequestJob) (t : RecoveryTables),
      (∀ job, (f job).id = job.id) →
        (updateJobs p f t).2.jobs.map RequestJob.id = t.jobs.map RequestJob.id :=
    fun p f t hid => map_key_updateWhere hid
  have hcomplete : ∀ t, (completeJob record l t).2.jobs.map RequestJob.id =
      t.jobs.map RequestJob.id := fun t => hupdate _ _ t fun _ => rfl
  have hsuppress : ∀ t, (suppressJob record l t).2.jobs.map RequestJob.id =
      t.jobs.map RequestJob.id := fun t => hupdate _ _ t fun _ => rfl
  have hexpire : ∀ t, (expireJob record l t).2.jobs.map RequestJob.id =
      t.jobs.map RequestJob.id := fun t => hupdate _ _ t fun _ => rfl
  have hpostpone : ∀ t, (postponeJob record l t).2.jobs.map RequestJob.id =
      t.jobs.map RequestJob.id := fun t => hupdate _ _ t fun _ => rfl
  simp only [settleRequest, hpostpone, hexpire, hsuppress, hcomplete]

/-- What a call of `issue` does to the tables, its request apart. -/
theorem issueTables_cases (mailOrigin : String) (url : RecoveryUrl) (expiresAt : ℤ) :
    ∃ jobs, jobs.map RequestJob.id = t.jobs.map RequestJob.id ∧
      (issueTables record lease draw mailOrigin url expiresAt t = { t with jobs := jobs } ∨
        Insertable record draw t ∧ issueCondition record lease t = true ∧
          issueTables record lease draw mailOrigin url expiresAt t =
            { issuedTables record draw t with jobs := jobs }) := by
  rw [issueTables]
  split
  swap
  · exact ⟨t.jobs, rfl, .inl rfl⟩
  cases hcondition : issueCondition record lease t with
  | true =>
      cases hbatch : issueBatch record lease draw t with
      | error e => exact ⟨t.jobs, rfl, .inl rfl⟩
      | ok result =>
          rw [issueBatch, bind_eq_ok] at hbatch
          obtain ⟨written, hwritten, hbatch⟩ := hbatch
          obtain ⟨hnames, rfl⟩ := (writeIssue_of_condition hcondition).mp hwritten
          cases lease with
          | none =>
              obtain rfl := pure_eq_ok.mp hbatch
              exact ⟨t.jobs, rfl, .inr ⟨hnames, rfl, rfl⟩⟩
          | some l =>
              obtain rfl := pure_eq_ok.mp hbatch
              exact ⟨_, ids_settleRequest record l (issuedTables record draw t),
                .inr ⟨hnames, rfl, rfl⟩⟩
  | false =>
      cases lease with
      | none =>
          rw [issueBatch, writeIssue_of_not hcondition]
          exact ⟨t.jobs, rfl, .inl rfl⟩
      | some l =>
          rw [issueBatch, writeIssue_of_not hcondition]
          exact ⟨_, ids_settleRequest record l t, .inl rfl⟩

theorem insertAudit_cases {row : AuditRow} {condition : Bool} {result : ℕ × RecoveryTables}
    (h : insertAudit row condition t = .ok result) :
    ∃ audit, result.2 = { t with audit := audit } := by
  cases condition with
  | true =>
      obtain ⟨-, rfl⟩ := insertAudit_of_condition.mp h
      exact ⟨_, rfl⟩
  | false =>
      rw [insertAudit_of_not] at h
      cases h
      exact ⟨t.audit, rfl⟩

/-- What a batch of `consume` does to the tables. -/
theorem consumeFound_cases (record : FoundToken) (input : ConsumeInput) (nonce auditId : String)
    (t : RecoveryTables) :
    committed t (consumeFound record input nonce auditId t) = t ∨
      ∃ audit, committed t (consumeFound record input nonce auditId t) =
        stopDelivery record input nonce
          { (updateCredentials record input nonce (spendToken record input nonce t).2).2 with
            audit := audit } := by
  cases hconsume : consumeFound record input nonce auditId t with
  | error e => exact .inl rfl
  | ok result =>
      rw [consumeFound, bind_eq_ok] at hconsume
      obtain ⟨⟨changes, t'⟩, hbatch, hresult⟩ := hconsume
      have htables : committed t (.ok result) = t' := by
        dsimp only at hresult
        by_cases hcounts : changes.token = 1 ∧ changes.user = 1 ∧ changes.audit = 1
        · rw [if_pos hcounts] at hresult
          obtain rfl := pure_eq_ok.mp hresult
          rfl
        · rw [if_neg hcounts] at hresult
          obtain rfl := pure_eq_ok.mp hresult
          rfl
      rw [htables]
      simp only [consumeBatch, bind_eq_ok, pure_eq_ok] at hbatch
      obtain ⟨audited, haudit, hbatch⟩ := hbatch
      obtain ⟨audit, hsame⟩ := insertAudit_cases haudit
      cases hbatch
      rw [hsame]
      exact .inr ⟨audit, rfl⟩

end MailPortal.Recovery
