import MailPortal.Recovery.IssueAtomic

/-!
# Consuming a Recovery Token

`consume` looks the token of a link up, and then spends it in a batch of five statements. The
first marks it with a nonce that the call has drawn; the others do their part if the token has
that nonce: they set the credentials of the user, write the audit row and cancel the mail.

Main results:

* `consume_result` : a call spends its token, with all that belongs to it, or changes nothing.
-/

namespace MailPortal.Recovery

open Failure Table

variable {seen : RecoveryTables}

/-- The token, and what replaces the password. -/
structure ConsumeInput where
  tokenHash : String
  now : ℤ
  passwordHash : String
  passwordSalt : String
  mcpTokenHash : Option String

/-- What the look-up of a token finds. -/
structure FoundToken where
  id : String
  userId : String
  email : String
  purpose : RecoveryPurpose
deriving DecidableEq

inductive ConsumeOutcome where
  | claimed
  | recovered
deriving DecidableEq

/-- Whose token was spent, and for what. -/
structure ConsumeResult where
  userId : String
  loginEmail : String
  outcome : ConsumeOutcome
deriving DecidableEq

/-- The open token of a hash, joined with its user. -/
def findToken (input : ConsumeInput) (t : RecoveryTables) : Option FoundToken :=
  t.tokens.findSome? fun token =>
    if token.tokenHash = input.tokenHash ∧ token.consumedAt = none ∧
      input.now < token.expiresAt then
      (t.user token.userId).map fun u => ⟨token.id, token.userId, u.email, token.purpose⟩
    else none

/-! ### The statements -/

variable (record : FoundToken) (input : ConsumeInput) (nonce : String)

/-- The token may still be spent: it is open, in time, and its user is eligible. -/
def RecoveryToken.spendable (token : RecoveryToken) (now : ℤ) (t : RecoveryTables) : Bool :=
  token.consumedAt.isNone && decide (now < token.expiresAt) &&
    t.users.any fun u => decide (u.id = token.userId) && u.eligible token.purpose

def spends (t : RecoveryTables) (token : RecoveryToken) : Bool :=
  decide (token.id = record.id) && token.spendable input.now t

def RecoveryToken.spent (token : RecoveryToken) (now : ℤ) (nonce : String) : RecoveryToken :=
  { token with consumedAt := some now, consumptionNonce := some nonce }

def spendToken (t : RecoveryTables) : ℕ × RecoveryTables :=
  (t.tokens.countP (spends record input t),
    { t with
      tokens := updateWhere (spends record input t) (fun token => token.spent input.now nonce)
        t.tokens })

/-- The token has the nonce of this call. -/
def nonceHeld (t : RecoveryTables) : Bool :=
  t.tokens.any fun token => decide (token.id = record.id) &&
    decide (token.consumptionNonce = some nonce)

/-- The user with new credentials. -/
def User.withCredentials (u : User) (input : ConsumeInput) : User :=
  { u with
    passwordHash := input.passwordHash
    passwordSalt := input.passwordSalt
    mcpTokenHash := input.mcpTokenHash
    sessionVersion := u.sessionVersion + 1
    ownershipConfirmedAt := some (u.ownershipConfirmedAt.getD input.now)
    updatedAt := input.now }

def updateCredentials (t : RecoveryTables) : ℕ × RecoveryTables :=
  let held := nonceHeld record nonce t
  let p := fun u : User => decide (u.id = record.userId) && decide (u.isActive = 1) && held
  (t.users.countP p, { t with users := updateWhere p (fun u => u.withCredentials input) t.users })

/-- The audit row of a consumption. -/
def consumeAudit (auditId : String) : AuditRow where
  id := auditId
  userId := record.userId
  eventType := if record.purpose = .setup then .ownershipConfirmed else .credentialsRecovered
  actorUserId := none
  createdAt := input.now

/-- The mail of the token is cancelled if it waits, and marked if it is being sent. -/
def stopDelivery (t : RecoveryTables) : RecoveryTables :=
  let held := nonceHeld record nonce t
  let outbox := updateWhere
    (fun row => decide (row.tokenId = record.id) && row.waiting && held)
    (fun row => row.cancelledRow "TOKEN_CONSUMED" input.now) t.outbox
  { t with
    outbox := updateWhere
      (fun row => decide (row.tokenId = record.id) && decide (row.state = .dispatching) && held)
      (fun row => row.markedRow "TOKEN_CONSUMED" input.now) outbox }

/-- The counts of the first three statements. -/
structure ConsumeChanges where
  token : ℕ
  user : ℕ
  audit : ℕ

def consumeBatch (auditId : String) (t : RecoveryTables) :
    Except String (ConsumeChanges × RecoveryTables) := do
  let (token, t) := spendToken record input nonce t
  let (user, t) := updateCredentials record input nonce t
  let (audit, t) ← insertAudit (consumeAudit record input auditId) (nonceHeld record nonce t) t
  return (⟨token, user, audit⟩, stopDelivery record input nonce t)

/-- The batch for the token that was found, and what is made of its counts. -/
def consumeFound (auditId : String) (t : RecoveryTables) :
    Except String (Option ConsumeResult × RecoveryTables) := do
  let (changes, t') ← consumeBatch record input nonce auditId t
  if changes.token = 1 ∧ changes.user = 1 ∧ changes.audit = 1 then
    return (some ⟨record.userId, record.email,
      if record.purpose = .setup then .claimed else .recovered⟩, t')
  return (none, t')

/-- `consume`: the token is looked up in the tables `seen`, and spent in the tables that its batch
finds. -/
def consume (auditId : String) (seen t : RecoveryTables) :
    Except String (Option ConsumeResult × RecoveryTables) :=
  match findToken input seen with
  | none => .ok (none, t)
  | some record => consumeFound record input nonce auditId t

/-! ### All or nothing -/

variable {record input nonce} {auditId : String} {t t' : RecoveryTables}

/-- The tables after a token is spent. -/
def consumedTables (record : FoundToken) (input : ConsumeInput) (nonce auditId : String)
    (t : RecoveryTables) : RecoveryTables :=
  { t with
    tokens := updateWhere (fun token => decide (token.id = record.id))
      (fun token => token.spent input.now nonce) t.tokens
    users := updateWhere (fun u => decide (u.id = record.userId))
      (fun u => u.withCredentials input) t.users
    audit := t.audit ++ [consumeAudit record input auditId]
    outbox := updateWhere
      (fun row => decide (row.tokenId = record.id) && decide (row.state = .dispatching))
      (fun row => row.markedRow "TOKEN_CONSUMED" input.now)
      (updateWhere (fun row => decide (row.tokenId = record.id) && row.waiting)
        (fun row => row.cancelledRow "TOKEN_CONSUMED" input.now) t.outbox) }

/-- A batch that does not spend the token changes nothing. -/
theorem consumeBatch_of_not (hfresh : nonceHeld record nonce t = false)
    (h : ∀ token ∈ t.tokens, spends record input t token = false) :
    consumeBatch record input nonce auditId t = .ok (⟨0, 0, 0⟩, t) := by
  have hspend : spendToken record input nonce t = (0, t) := by
    have hcount : t.tokens.countP (spends record input t) = 0 :=
      List.countP_eq_zero.mpr fun token htoken => by rw [h token htoken]; decide
    rw [spendToken, hcount, updateWhere_eq_self h]
  have hcredentials : updateCredentials record input nonce t = (0, t) := by
    have hnone : ∀ u : User, (decide (u.id = record.userId) && decide (u.isActive = 1) &&
        nonceHeld record nonce t) = false := by
      intro u
      rw [hfresh, Bool.and_false]
    have hcount : t.users.countP (fun u => decide (u.id = record.userId) &&
        decide (u.isActive = 1) && nonceHeld record nonce t) = 0 :=
      List.countP_eq_zero.mpr fun u _ => by rw [hnone u]; decide
    simp only [updateCredentials, hcount]
    rw [updateWhere_eq_self fun u _ => hnone u]
  have hstop : stopDelivery record input nonce t = t := by
    simp only [stopDelivery, hfresh, Bool.and_false]
    rw [updateWhere_eq_self fun _ _ => rfl, updateWhere_eq_self fun _ _ => rfl]
  have haudit : insertAudit (consumeAudit record input auditId) false t = .ok (0, t) := by
    rw [insertAudit, if_neg Bool.false_ne_true]
    rfl
  simp only [consumeBatch, hspend, hcredentials, hfresh, haudit, ok_bind, hstop]
  rfl

/-- **A batch that spends the token** does all that belongs to it, if the id of its audit row is
new. -/
theorem consumeBatch_of_spends (htokens : (t.tokens.map RecoveryToken.id).Nodup)
    (husers : (t.users.map User.id).Nodup) {token : RecoveryToken} (htoken : token ∈ t.tokens)
    (huser : token.userId = record.userId) (h : spends record input t token = true)
    {result : ConsumeChanges × RecoveryTables} :
    consumeBatch record input nonce auditId t = .ok result ↔
      (∀ row ∈ t.audit, row.id ≠ auditId) ∧
        result = (⟨1, 1, 1⟩, consumedTables record input nonce auditId t) := by
  have hparts := h
  simp only [spends, RecoveryToken.spendable, Bool.and_eq_true, decide_eq_true_eq] at hparts
  obtain ⟨hid, -, husable⟩ := hparts
  obtain ⟨u, hu, heligible⟩ := List.any_eq_true.mp husable
  simp only [User.eligible, Bool.and_eq_true, decide_eq_true_eq] at heligible
  obtain ⟨huid, hactive, -⟩ := heligible
  have hspend : spendToken record input nonce t = (1, { t with
      tokens := updateWhere (fun token => decide (token.id = record.id))
        (fun token => token.spent input.now nonce) t.tokens }) := by
    have hkey : ∀ other, spends record input t other = true → other.id = token.id := by
      intro other hother
      rw [spends, Bool.and_eq_true, decide_eq_true_eq] at hother
      rw [hother.1, hid]
    rw [spendToken, countP_of_key htokens htoken h hkey, updateWhere_of_key htokens htoken h hkey,
      hid]
  have hheld : ∀ (users : List User) (audit : List AuditRow), nonceHeld record nonce { t with
      tokens := updateWhere (fun token => decide (token.id = record.id))
        (fun token => token.spent input.now nonce) t.tokens
      users := users
      audit := audit } = true := by
    intro users audit
    refine List.any_eq_true.mpr ⟨token.spent input.now nonce, ?_, ?_⟩
    · exact mem_updateWhere.mpr (.inl ⟨token, htoken, decide_eq_true hid, rfl⟩)
    · rw [Bool.and_eq_true, decide_eq_true_eq, decide_eq_true_eq]
      exact ⟨hid, rfl⟩
  have hcredentials : updateCredentials record input nonce { t with
      tokens := updateWhere (fun token => decide (token.id = record.id))
        (fun token => token.spent input.now nonce) t.tokens } = (1, { t with
      tokens := updateWhere (fun token => decide (token.id = record.id))
        (fun token => token.spent input.now nonce) t.tokens
      users := updateWhere (fun u => decide (u.id = record.userId))
        (fun u => u.withCredentials input) t.users }) := by
    have hp : (decide (u.id = record.userId) && decide (u.isActive = 1) && true) = true := by
      rw [huid, huser, hactive]
      simp
    have hkey : ∀ other : User, (decide (other.id = record.userId) &&
        decide (other.isActive = 1) && true) = true → other.id = u.id := by
      intro other hother
      simp only [Bool.and_eq_true, decide_eq_true_eq] at hother
      rw [hother.1.1, huid, huser]
    simp only [updateCredentials, hheld]
    rw [countP_of_key husers hu hp hkey, updateWhere_of_key husers hu hp hkey, huid, huser]
  have hexists : ∀ tokens : List RecoveryToken, userExists record.userId { t with
      tokens := tokens
      users := updateWhere (fun u => decide (u.id = record.userId))
        (fun u => u.withCredentials input) t.users } = true := by
    intro tokens
    refine List.any_eq_true.mpr ⟨u.withCredentials input, ?_, ?_⟩
    · exact mem_updateWhere.mpr
        (.inl ⟨u, hu, decide_eq_true (huid.trans huser), rfl⟩)
    · exact decide_eq_true (huid.trans huser)
  simp only [consumeBatch, hspend, hcredentials, hheld, bind_eq_ok, pure_eq_ok]
  constructor
  · rintro ⟨audited, haudit, rfl⟩
    obtain ⟨⟨hnew, -⟩, rfl⟩ := insertAudit_of_condition.mp haudit
    refine ⟨hnew, ?_⟩
    simp only [stopDelivery, hheld, Bool.and_true]
    rfl
  · rintro ⟨hnew, rfl⟩
    refine ⟨_, insertAudit_of_condition.mpr ⟨⟨hnew, hexists _, rfl⟩, rfl⟩, ?_⟩
    simp only [stopDelivery, hheld, Bool.and_true]
    rfl

/-- What a look-up says of the token it finds. -/
theorem findToken_eq_some (h : findToken input seen = some record) :
    ∃ token ∈ seen.tokens, token.id = record.id ∧ token.userId = record.userId ∧
      token.purpose = record.purpose ∧ token.tokenHash = input.tokenHash := by
  obtain ⟨token, htoken, hfound⟩ := List.exists_of_findSome?_eq_some h
  split at hfound
  · rename_i hopen
    obtain ⟨u, -, rfl⟩ := Option.map_eq_some_iff.mp hfound
    exact ⟨token, htoken, rfl, rfl, rfl, hopen.1⟩
  · cases hfound

/-- The tables at a look-up are of the past: their tokens are still there, for the same user. -/
def TokensOf (seen t : RecoveryTables) : Prop :=
  ∀ token ∈ seen.tokens, ∃ token' ∈ t.tokens, token'.id = token.id ∧
    token'.userId = token.userId ∧ token'.purpose = token.purpose ∧
    token'.tokenHash = token.tokenHash

/-- What a call of `consume` does: it throws, over the id of its audit row, and nothing happens; it
finds nothing to spend; or it spends the token of its hash. -/
inductive ConsumeStep (input : ConsumeInput) (nonce auditId : String) (t : RecoveryTables) :
    Except String (Option ConsumeResult × RecoveryTables) → Prop
  | thrown (e : String) (cause : ∃ row ∈ t.audit, row.id = auditId) :
      ConsumeStep input nonce auditId t (.error e)
  | nothing : ConsumeStep input nonce auditId t (.ok (none, t))
  | spent (record : FoundToken) (token : RecoveryToken) (mem : token ∈ t.tokens)
      (hash : token.tokenHash = input.tokenHash) (id : token.id = record.id)
      (user : token.userId = record.userId) (purpose : token.purpose = record.purpose)
      (spendable : token.spendable input.now t = true) :
      ConsumeStep input nonce auditId t (.ok (some ⟨record.userId, record.email,
        if record.purpose = .setup then .claimed else .recovered⟩,
        consumedTables record input nonce auditId t))

/-- **Consuming is all or nothing.** -/
theorem consume_result (htokens : (t.tokens.map RecoveryToken.id).Nodup)
    (husers : (t.users.map User.id).Nodup)
    (hfresh : ∀ token ∈ t.tokens, token.consumptionNonce ≠ some nonce) (hseen : TokensOf seen t) :
    ConsumeStep input nonce auditId t (consume input nonce auditId seen t) := by
  rw [consume]
  cases hfound : findToken input seen with
  | none => exact .nothing
  | some record =>
      change ConsumeStep input nonce auditId t (consumeFound record input nonce auditId t)
      rw [consumeFound]
      obtain ⟨old, hold, hid, huser, hpurpose, hhash⟩ := findToken_eq_some hfound
      obtain ⟨token, htoken, hid', huser', hpurpose', hhash'⟩ := hseen old hold
      by_cases hspends : spends record input t token = true
      · cases hbatch : consumeBatch record input nonce auditId t with
        | error e =>
            refine .thrown e (by_contra fun hnone => ?_)
            have hnew : ∀ row ∈ t.audit, row.id ≠ auditId := fun row hrow he =>
              hnone ⟨row, hrow, he⟩
            rw [(consumeBatch_of_spends htokens husers htoken (huser'.trans huser) hspends).mpr
              ⟨hnew, rfl⟩] at hbatch
            cases hbatch
        | ok result =>
            obtain ⟨-, rfl⟩ := (consumeBatch_of_spends htokens husers htoken
              (huser'.trans huser) hspends).mp hbatch
            rw [spends, Bool.and_eq_true] at hspends
            exact .spent record token htoken (hhash'.trans hhash) (hid'.trans hid)
              (huser'.trans huser) (hpurpose'.trans hpurpose) hspends.2
      · have hnone : ∀ other ∈ t.tokens, spends record input t other = false := by
          intro other hother
          rw [← Bool.not_eq_true]
          intro hspent
          have hsame : other.id = token.id := by
            rw [spends, Bool.and_eq_true, decide_eq_true_eq] at hspent
            rw [hspent.1, hid', hid]
          rw [eq_of_key_eq htokens hother htoken hsame] at hspent
          exact hspends hspent
        have hheld : nonceHeld record nonce t = false := by
          rw [nonceHeld, List.any_eq_false]
          intro other hother
          simp [hfresh other hother]
        rw [consumeBatch_of_not hheld hnone]
        exact .nothing

end MailPortal.Recovery
