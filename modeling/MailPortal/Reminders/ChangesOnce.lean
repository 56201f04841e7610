import MailPortal.Lib.Alone
import MailPortal.Reminders.Invariant

/-!
# Reminders Change Once per Operation

Any number of clients create reminders and act on them while replies come in and access changes.
Their statements and batches interleave in any way (`Reachable`).

A request under a key that is taken is to be answered as the record says (`AnsweredOnce`). The
service looks at the clock before it looks at the records, so that it answers a retry that comes
after its time with `INVALID`; and it records the time of a snooze as the client spells it, but
stores it as a number. `Call.Meets` leaves both out.

Main results:

* `reminders_change_once` : in every run of calls that meet the condition, conversations have one
  active reminder at most, versions count the updates, resolved reminders stay as they are, and
  every key has one effect and one answer.
* `late_create_not_replayed` : what the condition leaves out.
-/

namespace MailPortal.Reminders

open Concurrent Prog Table

variable {host : ReminderHost} {w w' s : World}
variable {userId mailboxAddress : String} {row : ReminderRow} {timestamp : ℤ}
variable {current : FollowUpReminder} {anchor : Option AuthoritativeReminderAnchor} {call : Call}

/-! ### Records -/

variable {φ : Type} {find : World → Option (φ × FollowUpReminder)} {fingerprint : φ}
  {conflict : ReminderError} {pair : String × String} {before after : World}
  {answer : Except ReminderError FollowUpReminder}

/-- What a program promises about a reminder that it answers with. -/
def Records (find : World → Option (φ × FollowUpReminder)) (fingerprint : φ)
    (answer : Except ReminderError FollowUpReminder) (w : World) : Prop :=
  ∀ reminder, answer = .ok reminder → find w = some (fingerprint, reminder)

theorem records_error {e : ReminderError} : Records find fingerprint (.error e) w :=
  fun _ hok => by cases hok

theorem records_replay [DecidableEq φ] {prior : φ × FollowUpReminder}
    (hprior : find w = some prior) :
    Records find fingerprint (replayOf prior fingerprint conflict) w := by
  intro reminder hok
  unfold replayOf at hok
  split at hok
  · rename_i hsame
    rw [hprior, ← hsame, ← Except.ok.inj hok]
  · cases hok

/-- A request is answered once: what it is told is recorded, and when there was a record already,
the record is what it is told. -/
structure AnsweredOnce (find : World → Option (φ × FollowUpReminder)) (fingerprint : φ)
    (conflict : ReminderError) (pair : String × String) (before after : World)
    (answer : Except ReminderError FollowUpReminder) : Prop where
  recorded : Records find fingerprint answer after
  replayed : ∀ reminder, find before = some (fingerprint, reminder) →
    answer = .ok reminder ∨ answer = .error forbidden ∧ pair ∈ after.revoked
  conflicts : ∀ other reminder, find before = some (other, reminder) → other ≠ fingerprint →
    answer = .error conflict ∨ answer = .error forbidden ∧ pair ∈ after.refused

/-- A record stays, and its user had access to the mailbox. -/
structure Keeping (host : HostRuntime) (find : World → Option (φ × FollowUpReminder))
    (fingerprint : φ) (pair : String × String) : Prop where
  kept : ∀ w w' record, Consistent host w' → Later w w' → find w = some record →
    find w' = some record
  actor : ∀ w reminder, Consistent host w → find w = some (fingerprint, reminder) →
    w.HasOrLost pair

variable (host) in
theorem keeping_findCreate (userId idempotencyKey : String) (fingerprint : CreateFingerprint) :
    Keeping host.toHostRuntime (·.findCreate (userId, idempotencyKey)) fingerprint
      (userId, fingerprint.mailbox) where
  kept w w' record hinv' hlater hfind := by
    obtain ⟨row, hrow, rfl⟩ := Option.map_eq_some_iff.mp hfind
    obtain ⟨hmem, hkey⟩ := lookup_eq_some hrow
    obtain ⟨row', hmem', hbecomes⟩ := hlater.reminders row hmem
    obtain ⟨-, hkey', hprint, hresult⟩ := hbecomes.created
    have hrow' :
        lookup ReminderRow.createKey (userId, idempotencyKey) w'.reminders = some row' := by
      rw [← hkey, ← hkey']
      exact lookup_of_mem hinv'.createKeys hmem'
    exact Option.map_eq_some_iff.mpr ⟨row', hrow', by rw [hprint, hresult]⟩
  actor w reminder hinv hfind := by
    obtain ⟨row, hrow, hrecord⟩ := Option.map_eq_some_iff.mp hfind
    obtain ⟨hmem, hkey⟩ := lookup_eq_some hrow
    have howner := hinv.owners row hmem
    rw [← (hinv.snapshots row hmem).mailbox, (Prod.mk.inj hkey).1,
      (Prod.mk.inj hrecord).1] at howner
    exact howner

variable (host) in
theorem keeping_findOperation (userId operationId : String) (fingerprint : OperationFingerprint) :
    Keeping host.toHostRuntime (·.findOperation (userId, operationId)) fingerprint
      (userId, fingerprint.mailbox) where
  kept w w' record hinv' hlater hfind := by
    obtain ⟨row, hrow, rfl⟩ := Option.map_eq_some_iff.mp hfind
    obtain ⟨hmem, hkey⟩ := lookup_eq_some hrow
    have hrow' : lookup OperationRow.key (userId, operationId) w'.operations = some row := by
      rw [← hkey]
      exact lookup_of_mem hinv'.operationKeys (hlater.operations row hmem)
    exact Option.map_eq_some_iff.mpr ⟨row, hrow', rfl⟩
  actor w reminder hinv hfind := by
    obtain ⟨row, hrow, hrecord⟩ := Option.map_eq_some_iff.mp hfind
    obtain ⟨hmem, hkey⟩ := lookup_eq_some hrow
    have hactor := hinv.actors row hmem
    rw [← hinv.mailboxes row hmem, (Prod.mk.inj hkey).1, (Prod.mk.inj hrecord).1] at hactor
    exact hactor

section

variable (hkeeping : Keeping host.toHostRuntime find fingerprint pair)
  (hinv : Consistent host.toHostRuntime after) (hlater : Later before after)
include hkeeping hinv hlater

/-- What is not recorded was not recorded before. -/
theorem Keeping.none_before (hnone : find after = none) : find before = none := by
  cases hfind : find before with
  | none => rfl
  | some record =>
      rw [hkeeping.kept _ _ _ hinv hlater hfind] at hnone
      cases hnone

/-- The answer from a record. -/
theorem Keeping.replay [DecidableEq φ] {prior : φ × FollowUpReminder}
    (hprior : find after = some prior) :
    AnsweredOnce find fingerprint conflict pair before after
      (replayOf prior fingerprint conflict) where
  recorded := records_replay hprior
  replayed reminder hfind := by
    obtain rfl := Option.some.inj (hprior.symm.trans (hkeeping.kept _ _ _ hinv hlater hfind))
    exact .inl (if_pos rfl)
  conflicts other reminder hfind hne := by
    obtain rfl := Option.some.inj (hprior.symm.trans (hkeeping.kept _ _ _ hinv hlater hfind))
    exact .inl (if_neg hne)

/-- The answer to a user without access. -/
theorem Keeping.refuse (haccess : pair ∉ after.access) (hrefused : pair ∈ after.refused) :
    AnsweredOnce find fingerprint conflict pair before after (.error forbidden) where
  recorded := records_error
  replayed reminder hfind := by
    have hactor := hkeeping.actor _ _ hinv (hkeeping.kept _ _ _ hinv hlater hfind)
    exact .inr ⟨rfl, hactor.resolve_left haccess⟩
  conflicts other reminder _ _ := .inr ⟨rfl, hrefused⟩

end

/-- The answer to a request without a record. -/
theorem AnsweredOnce.of_none (hnone : find before = none)
    (hrecorded : Records find fingerprint answer after) :
    AnsweredOnce find fingerprint conflict pair before after answer where
  recorded := hrecorded
  replayed reminder hfind := by rw [hnone] at hfind; cases hfind
  conflicts other reminder hfind := by rw [hnone] at hfind; cases hfind

/-- Answers stay true. -/
theorem AnsweredOnce.later (hkeeping : Keeping host.toHostRuntime find fingerprint pair)
    (h : AnsweredOnce find fingerprint conflict pair before after answer)
    (hinv : Consistent host.toHostRuntime w) (hlater : Later after w) :
    AnsweredOnce find fingerprint conflict pair before w answer where
  recorded reminder hok := hkeeping.kept _ _ _ hinv hlater (h.recorded reminder hok)
  replayed reminder hfind := (h.replayed reminder hfind).imp_right fun ⟨herror, hmem⟩ =>
    ⟨herror, hlater.revoked pair hmem⟩
  conflicts other reminder hfind hne := (h.conflicts other reminder hfind hne).imp_right
    fun ⟨herror, hmem⟩ => ⟨herror, hlater.refused pair hmem⟩

/-! ### The rules -/

/-- What a turn does. -/
def Advances (host : HostRuntime) (w w' : World) : Prop := Later w w' ∧ Consistent host w'

def rules (host : HostRuntime) : Rules ReminderOp World where
  Inv := Consistent host
  Step := Advances host
  Others := Advances host
  waits _ := true

/-- The program keeps to the rules. -/
abbrev KeepsTo {α : Type} (host : HostRuntime) (Q : α → World → Prop) (p : Asking α) (w : World) :
    Prop := p.Keeps ReminderOp.Exec (rules host) Q w

section Rules

variable {α : Type} {Q : α → World → Prop} {op : ReminderOp} {next : op.Answer → Asking α}

section

variable (K : World → Prop) (hstable : ∀ w w', Later w w' → K w → K w') (hK : K s)
include K hstable hK

/-- **Ask, and go on**: what is known when the program asks is `K`. -/
theorem keeps_query (h : ∀ w, Consistent host.toHostRuntime w → K w → ∀ r w', op.Exec w r w' →
      Consistent host.toHostRuntime w' ∧ Later w w' ∧
        KeepsTo host.toHostRuntime Q (next r) w') :
    KeepsTo host.toHostRuntime Q (query op >>= next) s := by
  refine Keeps.of_known K (fun w w' hothers => hstable w w' hothers.1) hK ?_
  intro w hinv hw r w' hexec
  obtain ⟨hinv', hlater, hnext⟩ := h w hinv hw r w' hexec
  exact ⟨hinv', ⟨hlater, hinv'⟩, hnext⟩

/-- Ask a question that changes nothing. -/
theorem keeps_read (hread : ∀ w r w', op.Exec w r w' → w' = w)
    (h : ∀ w, Consistent host.toHostRuntime w → K w → ∀ r, op.Exec w r w →
      KeepsTo host.toHostRuntime Q (next r) w) :
    KeepsTo host.toHostRuntime Q (query op >>= next) s := by
  refine keeps_query K hstable hK fun w hinv hw r w' hexec => ?_
  obtain rfl := hread w r w' hexec
  exact ⟨hinv, .refl _, h w' hinv hw r hexec⟩

end

/-- Ask for access. -/
theorem keeps_access {next : Bool → Asking α} (before : World) (hlater : Later before s)
    (hrefused : ∀ w, Consistent host.toHostRuntime w → Later before w →
      (userId, mailboxAddress) ∉ w.access → (userId, mailboxAddress) ∈ w.refused →
      KeepsTo host.toHostRuntime Q (next false) w)
    (hallowed : ∀ w, Consistent host.toHostRuntime w → Later before w →
      KeepsTo host.toHostRuntime Q (next true) w) :
    KeepsTo host.toHostRuntime Q (query (.canAccessMailbox userId mailboxAddress) >>= next) s := by
  refine keeps_query (Later before) (fun _ _ h h' => h'.trans h) hlater
    fun w hinv hw r w' hexec => ?_
  obtain ⟨rfl, rfl⟩ := hexec
  cases hallows : w.allows mailboxAddress userId with
  | true => exact ⟨hinv, .refl w, hallowed w hinv hw⟩
  | false =>
      refine ⟨hinv.refuse _, .refuse w _, hrefused _ (hinv.refuse _) (hw.trans (.refuse w _)) ?_
        List.mem_cons_self⟩
      exact fun hmem => Bool.false_ne_true (hallows.symm.trans (List.contains_iff_mem.mpr hmem))

end Rules

/-! ### Creates -/

theorem createOrReplay_keeps (hprints : PrintsDates host.toHostRuntime) (row : FollowUpReminder)
    (idempotencyKey : String) {fingerprint : CreateFingerprint} (hversion : row.version = 1)
    (hmailbox : fingerprint.mailbox = row.mailboxAddress) (s : World) :
    KeepsTo host.toHostRuntime
      (Records (·.findCreate (row.ownerUserId, idempotencyKey)) fingerprint)
      (createOrReplay host row idempotencyKey fingerprint) s := by
  have hany : ∀ w w' : World, Later w w' → True → True := fun _ _ _ h => h
  refine keeps_read (fun _ => True) hany trivial (fun _ _ _ hexec => hexec.2) ?_
  rintro w hinv - prior ⟨rfl, -⟩
  cases hprior : w.findCreate (row.ownerUserId, idempotencyKey) with
  | some prior => exact records_replay hprior
  | none =>
      refine keeps_query (fun _ => True) hany trivial fun w₁ hinv₁ _ inserted w₂ hinsert => ?_
      obtain ⟨hinv₂, hlater, hok, -⟩ := hinv₁.insertReminder hprints hversion hmailbox hinsert
      refine ⟨hinv₂, hlater, ?_⟩
      cases inserted with
      | ok inserted =>
          cases inserted with
          | false => exact records_error
          | true =>
              obtain ⟨new, hnew, hkey, hprint, hresult⟩ := hok rfl
              intro reminder hreminder
              cases hreminder
              have hrow := lookup_of_mem hinv₂.createKeys hnew
              rw [hkey] at hrow
              exact Option.map_eq_some_iff.mpr ⟨new, hrow, by rw [hprint, hresult]⟩
      | error e =>
          cases e with
          | notNull => exact records_error
          | unique =>
              refine keeps_read (fun _ => True) hany trivial (fun _ _ _ hexec => hexec.2) ?_
              rintro w₃ hinv₃ - prior ⟨rfl, -⟩
              cases hprior : w₃.findCreate (row.ownerUserId, idempotencyKey) with
              | some prior => exact records_replay hprior
              | none =>
                  refine keeps_read (fun _ => True) hany trivial (fun _ _ _ hexec => hexec.2) ?_
                  rintro w₄ hinv₄ - active -
                  cases active with
                  | none => exact records_error
                  | some active =>
                      change Records _ _ (if _ then _ else _) _
                      split
                      · exact records_error
                      · exact records_error

/-! ### Operations -/

/-- A time that is spelled as `toISOString` spells it. -/
def ReminderAction.Canonical (host : HostRuntime) (action : ReminderAction) : Prop :=
  ∀ remindAt, action = .snooze remindAt →
    (host.dateParse remindAt).bind toISOString = some remindAt

/-- **The reminder that `nextReminder` builds is the row that the batch leaves.** -/
theorem nextReminder_stored (hcurrent : fromRow row = some current)
    (hreadable : row.Readable host.toHostRuntime) (hopen : row.Open) (hactive : row.isActive = true)
    {input : ReminderStoreOperation} (hcanonical : input.action.Canonical host.toHostRuntime)
    {t : ℤ} (hbound : boundRemindAt host current input = some t) :
    fromRow (input.set t row) = some (nextReminder current input) ∧
      host.dateParse (nextReminder current input).remindAt = some t := by
  obtain ⟨reminder, hreminder, hreads⟩ := hreadable
  obtain rfl := Option.some.inj (hreminder.symm.trans hcurrent)
  obtain ⟨baselineMessageDate, remindAt, hbaseline, hremindAt⟩ := printed_of_fromRow hcurrent
  obtain rfl := Option.some.inj ((fromRow_of_printed _ hbaseline hremindAt).symm.trans hcurrent)
  obtain ⟨hreason, hresolved⟩ := hopen hactive
  have hstate : row.state = .active := of_decide_eq_true hactive
  cases haction : input.action with
  | snooze text =>
      have htext := hcanonical text haction
      simp only [boundRemindAt, haction] at hbound
      rw [hbound] at htext
      refine ⟨?_, by simpa [nextReminder, haction] using hbound⟩
      rw [fromRow_of_printed (input.set t row) hbaseline htext]
      simp [nextReminder, ReminderStoreOperation.set, haction, hreason, hresolved, hstate]
  | dismiss =>
      simp only [boundRemindAt, haction] at hbound
      obtain rfl := Option.some.inj (hbound.symm.trans hreads)
      refine ⟨?_, by simpa [nextReminder, haction] using hbound⟩
      rw [fromRow_of_printed (input.set row.remindAt row) hbaseline hremindAt]
      simp [nextReminder, ReminderStoreOperation.set, haction]
  | complete =>
      simp only [boundRemindAt, haction] at hbound
      obtain rfl := Option.some.inj (hbound.symm.trans hreads)
      refine ⟨?_, by simpa [nextReminder, haction] using hbound⟩
      rw [fromRow_of_printed (input.set row.remindAt row) hbaseline hremindAt]
      simp [nextReminder, ReminderStoreOperation.set, haction]

theorem version_of_fromRow (h : fromRow row = some current) : row.version = current.version := by
  obtain ⟨baselineMessageDate, remindAt, hbaseline, hremindAt⟩ := printed_of_fromRow h
  obtain rfl := Option.some.inj ((fromRow_of_printed _ hbaseline hremindAt).symm.trans h)
  rfl

theorem Later.becomes (h : Later w w') (hrow : ∃ row' ∈ w.reminders, row.Becomes row') :
    ∃ row' ∈ w'.reminders, row.Becomes row' := by
  obtain ⟨row', hmem, hbecomes⟩ := hrow
  obtain ⟨row'', hmem', hbecomes'⟩ := h.reminders row' hmem
  exact ⟨row'', hmem', hbecomes.trans hbecomes'⟩

theorem reclassify_keeps (input : ReminderStoreOperation) (s : World) :
    KeepsTo host.toHostRuntime
      (Records (·.findOperation (input.ownerUserId, input.operationId)) input.fingerprint)
      (reclassify input) s := by
  have hany : ∀ w w' : World, Later w w' → True → True := fun _ _ _ h => h
  refine keeps_access s (.refl s) (fun w _ _ _ _ => records_error) fun w hinv _ => ?_
  refine keeps_read (fun _ => True) hany trivial (fun _ _ _ hexec => hexec.2) ?_
  rintro w₁ hinv₁ - prior ⟨rfl, -⟩
  cases hprior : w₁.findOperation (input.ownerUserId, input.operationId) with
  | some prior => exact records_replay hprior
  | none =>
      refine keeps_read (fun _ => True) hany trivial (fun _ _ _ hexec => hexec.2) ?_
      rintro w₂ hinv₂ - latest -
      cases latest with
      | none => exact records_error
      | some latest => exact records_error

theorem applyOperation_keeps {input : ReminderStoreOperation}
    (hmailbox : input.fingerprint.mailbox = input.mailboxAddress)
    (hcanonical : input.action.Canonical host.toHostRuntime) {before : World}
    (hbefore : Later before s) :
    KeepsTo host.toHostRuntime
      (fun answer after => AnsweredOnce (·.findOperation (input.ownerUserId, input.operationId))
        input.fingerprint operationConflict (input.ownerUserId, input.mailboxAddress) before after
        answer)
      (applyOperation host input) s := by
  have hkeeping := keeping_findOperation host input.ownerUserId input.operationId
    input.fingerprint
  rw [hmailbox] at hkeeping
  refine keeps_read (Later before) (fun _ _ h h' => h'.trans h) hbefore
    (fun _ _ _ hexec => hexec.2) ?_
  rintro w hinv hlater prior ⟨rfl, -⟩
  cases hprior : w.findOperation (input.ownerUserId, input.operationId) with
  | some prior => exact hkeeping.replay hinv hlater hprior
  | none =>
      -- Nothing was recorded before, so that only a new record has to be right.
      refine Keeps.mono (Q := Records (·.findOperation (input.ownerUserId, input.operationId))
        input.fingerprint) ?_ fun answer after h =>
          AnsweredOnce.of_none (hkeeping.none_before hinv hlater hprior) h
      refine keeps_read (fun _ => True) (fun _ _ _ h => h) trivial (fun _ _ _ hexec => hexec.2) ?_
      rintro w₁ hinv₁ - row ⟨hrow, -⟩
      cases row with
      | none => exact records_error
      | some row =>
          have hmem := List.mem_of_find?_eq_some hrow.symm
          have hscoped := List.find?_some hrow.symm
          simp only [Bool.and_eq_true, decide_eq_true_eq] at hscoped
          dsimp only [Option.map_some]
          cases hcurrent : fromRow row with
          | none => exact records_error
          | some current =>
              dsimp only
              split
              · exact records_error
              · rename_i hguard
                have hguard :
                    current.state = .active ∧ current.version = input.expectedVersion := by
                  simpa [not_or] using hguard
                have hrowversion : row.version = input.expectedVersion :=
                  (version_of_fromRow hcurrent).trans hguard.2
                refine keeps_query (fun w => ∃ row' ∈ w.reminders, row.Becomes row')
                  (fun w w' hlater => Later.becomes hlater) ⟨row, hmem, .refl row⟩ ?_
                rintro w₂ hinv₂ ⟨row', hmem', hbecomes⟩ applied w₃ hbatch
                -- The row that the batch updates is the one that was read.
                have hstored : ∀ t, boundRemindAt host current input = some t →
                    ∀ other ∈ w₂.reminders, input.applies w₂ other = true →
                      fromRow (input.set t other) = some (nextReminder current input) ∧
                        host.dateParse (nextReminder current input).remindAt = some t := by
                  intro t hbound other hother happlies
                  obtain ⟨hid, -, -, hactive, hversion, -⟩ :=
                    ReminderStoreOperation.applies_iff.mp happlies
                  have hsame : other = row' := eq_of_key_eq hinv₂.ids hother hmem'
                    (hid.trans (hscoped.1.1.symm.trans hbecomes.created.1.symm))
                  subst hsame
                  obtain rfl := hbecomes.eq_of_version (hversion.trans hrowversion.symm)
                  exact nextReminder_stored hcurrent (hinv₂.readable _ hother)
                    (hinv₂.open _ hother) hactive hcanonical hbound
                obtain ⟨hinv₃, hlater₃, hok⟩ := hinv₂.applyBatch hmailbox hstored hbatch
                refine ⟨hinv₃, hlater₃, ?_⟩
                cases applied with
                | ok applied =>
                    cases applied with
                    | false => exact reclassify_keeps input w₃
                    | true =>
                        obtain ⟨operation, hmem₃, hkey, hprint, hresult⟩ := hok rfl
                        intro reminder hreminder
                        cases hreminder
                        have hfound := lookup_of_mem hinv₃.operationKeys hmem₃
                        rw [hkey] at hfound
                        exact Option.map_eq_some_iff.mpr
                          ⟨operation, hfound, by rw [hprint, hresult]⟩
                | error e =>
                    cases e with
                    | unique => exact reclassify_keeps input w₃
                    | notNull => exact records_error

/-! ### Calls -/

/-- The condition: a snooze spells its time as `toISOString` does, and a request that was recorded
before the call is not sent after its time. -/
def Call.Meets (host : ReminderHost) (w : World) : Call → Prop
  | create userId _ input timestamp _ => ∀ parsed, input.parse host.toHostRuntime = some parsed →
      (w.findCreate (userId, parsed.idempotencyKey)).isSome →
        isFutureReminder host.toHostRuntime parsed.remindAt timestamp = true
  | apply userId _ _ input timestamp => ∀ parsed, input.parse host.toHostRuntime = some parsed →
      parsed.action.Canonical host.toHostRuntime ∧
        ((w.findOperation (userId, parsed.operationId)).isSome →
          parsed.action.isFuture host.toHostRuntime timestamp = true)
  | completeForInboundReply .. => True
  | setAccess .. => True

/-- What a call is told is right: its request was answered once. -/
def Answered.Right (host : ReminderHost) (a : Answered) (w : World) : Prop :=
  match a.call, a.reply with
  | .create userId mailboxAddress input _ _, .reminder answer =>
      ∀ parsed, input.parse host.toHostRuntime = some parsed →
        AnsweredOnce (·.findCreate (userId, parsed.idempotencyKey))
          ⟨host.toLowerCase mailboxAddress, parsed.emailId, parsed.remindAt⟩ createConflict
          (userId, host.toLowerCase mailboxAddress) a.before w answer
  | .apply userId mailboxAddress reminderId input _, .reminder answer =>
      ∀ id parsed, boundedId reminderId = some id → input.parse host.toHostRuntime = some parsed →
        AnsweredOnce (·.findOperation (userId, parsed.operationId))
          ⟨host.toLowerCase mailboxAddress, id, parsed.action, parsed.expectedVersion⟩
          operationConflict (userId, host.toLowerCase mailboxAddress) a.before w answer
  | .completeForInboundReply .., .count _ => True
  | .setAccess .., .done => True
  | _, _ => False

theorem create_keeps (hprints : PrintsDates host.toHostRuntime) {input : CreateReminder}
    (hmeets : (Call.create userId mailboxAddress input timestamp anchor).Meets host s) :
    KeepsTo host.toHostRuntime
      (fun answer after => ∀ parsed, input.parse host.toHostRuntime = some parsed →
        AnsweredOnce (·.findCreate (userId, parsed.idempotencyKey))
          ⟨host.toLowerCase mailboxAddress, parsed.emailId, parsed.remindAt⟩ createConflict
          (userId, host.toLowerCase mailboxAddress) s after answer)
      (create host userId mailboxAddress input timestamp anchor) s := by
  refine keeps_access s (.refl s) (fun w hinv hlater haccess hrefused parsed _ => ?_)
    fun w hinv hlater => ?_
  · exact (keeping_findCreate host userId parsed.idempotencyKey _).refuse hinv hlater
      haccess hrefused
  · rw [if_neg (by decide)]
    cases hparse : input.parse host.toHostRuntime with
    | none => exact fun parsed h => by cases h
    | some parsed =>
        have hkeeping := keeping_findCreate host userId parsed.idempotencyKey
          ⟨host.toLowerCase mailboxAddress, parsed.emailId, parsed.remindAt⟩
        refine Keeps.mono (Q := fun answer after => AnsweredOnce
          (·.findCreate (userId, parsed.idempotencyKey))
          ⟨host.toLowerCase mailboxAddress, parsed.emailId, parsed.remindAt⟩ createConflict
          (userId, host.toLowerCase mailboxAddress) s after answer) ?_
          fun answer after h _ hparsed => Option.some.inj hparsed ▸ h
        dsimp only
        split
        · rename_i hnotFuture
          refine AnsweredOnce.of_none ?_ records_error
          cases hfound : s.findCreate (userId, parsed.idempotencyKey) with
          | none => rfl
          | some record =>
              rw [hmeets parsed hparse (by rw [hfound]; rfl)] at hnotFuture
              cases hnotFuture
        · refine keeps_read (Later s) (fun _ _ h h' => h'.trans h) hlater
            (fun _ _ _ hexec => hexec.2) ?_
          rintro w₁ hinv₁ hlater₁ prior ⟨rfl, -⟩
          cases hprior : w₁.findCreate (userId, parsed.idempotencyKey) with
          | some prior => exact hkeeping.replay hinv₁ hlater₁ hprior
          | none =>
              refine Keeps.mono (Q := Records (·.findCreate (userId, parsed.idempotencyKey))
                ⟨host.toLowerCase mailboxAddress, parsed.emailId, parsed.remindAt⟩) ?_
                fun answer after h =>
                  AnsweredOnce.of_none (hkeeping.none_before hinv₁ hlater₁ hprior) h
              cases anchor with
              | none => exact records_error
              | some anchor =>
                  dsimp only
                  cases anchor.isUsable host.toHostRuntime timestamp with
                  | false => exact records_error
                  | true =>
                      refine keeps_query (fun _ => True) (fun _ _ _ h => h) trivial ?_
                      rintro w₂ hinv₂ - id w₃ ⟨-, rfl⟩
                      refine ⟨hinv₂.of_access rfl rfl rfl fun _ h => h, { Later.refl w₂ with }, ?_⟩
                      exact createOrReplay_keeps hprints (newReminder id userId
                        (host.toLowerCase mailboxAddress) anchor parsed.remindAt timestamp)
                        parsed.idempotencyKey rfl rfl _

theorem apply_keeps {reminderId : String} {input : ReminderOperation}
    (hmeets : (Call.apply userId mailboxAddress reminderId input timestamp).Meets host s) :
    KeepsTo host.toHostRuntime
      (fun answer after => ∀ id parsed, boundedId reminderId = some id →
        input.parse host.toHostRuntime = some parsed →
          AnsweredOnce (·.findOperation (userId, parsed.operationId))
            ⟨host.toLowerCase mailboxAddress, id, parsed.action, parsed.expectedVersion⟩
            operationConflict (userId, host.toLowerCase mailboxAddress) s after answer)
      (apply host userId mailboxAddress reminderId input timestamp) s := by
  refine keeps_access s (.refl s) (fun w hinv hlater haccess hrefused id parsed _ _ => ?_)
    fun w hinv hlater => ?_
  · exact (keeping_findOperation host userId parsed.operationId _).refuse hinv hlater
      haccess hrefused
  · rw [if_neg (by decide)]
    cases hid : boundedId reminderId with
    | none => exact fun id parsed h => by cases h
    | some id =>
        cases hparse : input.parse host.toHostRuntime with
        | none => exact fun id parsed _ h => by cases h
        | some parsed =>
            obtain ⟨hcanonical, hfuture⟩ := hmeets parsed hparse
            refine Keeps.mono (Q := fun answer after => AnsweredOnce
              (·.findOperation (userId, parsed.operationId))
              ⟨host.toLowerCase mailboxAddress, id, parsed.action, parsed.expectedVersion⟩
              operationConflict (userId, host.toLowerCase mailboxAddress) s after answer) ?_
              fun answer after h _ _ hid' hparsed =>
                Option.some.inj hid' ▸ Option.some.inj hparsed ▸ h
            dsimp only
            split
            · rename_i hnotFuture
              refine AnsweredOnce.of_none ?_ records_error
              cases hfound : s.findOperation (userId, parsed.operationId) with
              | none => rfl
              | some record =>
                  rw [hfuture (by rw [hfound]; rfl)] at hnotFuture
                  cases hnotFuture
            · exact applyOperation_keeps rfl hcanonical hlater

theorem completeForInboundReply_keeps (input : StoredInboundReply) (timestamp : ℤ) (s : World) :
    KeepsTo host.toHostRuntime (fun _ _ => True)
      (completeForInboundReply host input timestamp) s := by
  unfold completeForInboundReply
  dsimp only
  split
  · refine keeps_query (fun _ => True) (fun _ _ _ h => h) trivial ?_
    rintro w hinv - changes w' ⟨-, rfl⟩
    have hupdates := InboundReply.updates hinv
    exact ⟨hinv.updateReminders (hupdates _), .updateReminders none (hupdates _), trivial⟩
  · exact trivial

/-- The clients' programs: a call that meets the condition, in the world that it starts in. -/
def Starts (host : ReminderHost) (w : World) (p : Asking Answered) : Prop :=
  ∃ call : Call, call.Meets host w ∧
    p = (call.program host).bind fun reply => .done ⟨call, w, reply⟩

theorem keeps_answered {α : Type} (p : Asking α) (reply : α → Reply)
    (h : KeepsTo host.toHostRuntime (fun a => Answered.Right host ⟨call, before, reply a⟩) p s) :
    KeepsTo host.toHostRuntime (Answered.Right host)
      ((p.bind fun a => .done (reply a)).bind fun reply => .done ⟨call, before, reply⟩) s :=
  Keeps.bind (Keeps.bind h)

theorem starts_keeps (hprints : PrintsDates host.toHostRuntime) {p : Asking Answered}
    (h : Starts host s p) : KeepsTo host.toHostRuntime (Answered.Right host) p s := by
  obtain ⟨call, hmeets, rfl⟩ := h
  cases call with
  | create userId mailboxAddress input timestamp anchor =>
      exact keeps_answered (create host userId mailboxAddress input timestamp anchor) .reminder
        (create_keeps hprints hmeets)
  | apply userId mailboxAddress reminderId input timestamp =>
      exact keeps_answered (apply host userId mailboxAddress reminderId input timestamp) .reminder
        (apply_keeps hmeets)
  | completeForInboundReply input timestamp =>
      exact keeps_answered (completeForInboundReply host input timestamp) .count
        ((completeForInboundReply_keeps input timestamp s).mono fun _ _ _ => trivial)
  | setAccess userId mailboxAddress allowed =>
      refine keeps_answered (query (.setAccess userId mailboxAddress allowed)) (fun _ => .done) ?_
      refine Keeps.of_known (fun _ => True) (fun _ _ _ h => h) trivial ?_
      rintro w hinv - r w' rfl
      have hinv' := Consistent.setAccess hinv (userId, mailboxAddress) allowed
      exact ⟨hinv', ⟨.setAccess _ _ _, hinv'⟩, trivial⟩

theorem right_stable : Stable (rules host.toHostRuntime) (Answered.Right host) := by
  rintro ⟨call, before, reply⟩ w w' ⟨hlater, hinv⟩ h
  cases call with
  | create userId mailboxAddress input timestamp anchor =>
      cases reply with
      | reminder answer =>
          exact fun parsed hparse =>
            (h parsed hparse).later (keeping_findCreate host _ _ _) hinv hlater
      | count answer => exact h
      | done => exact h
  | apply userId mailboxAddress reminderId input timestamp =>
      cases reply with
      | reminder answer =>
          exact fun id parsed hid hparse =>
            (h id parsed hid hparse).later (keeping_findOperation host _ _ _) hinv hlater
      | count answer => exact h
      | done => exact h
  | completeForInboundReply input timestamp => cases reply <;> exact h
  | setAccess userId mailboxAddress allowed => cases reply <;> exact h

/-! ### The results -/

theorem later_of_since (h : (rules host.toHostRuntime).Since w w') : Later w w' := by
  induction h with
  | refl => exact .refl w
  | tail _ hadvances ih => exact ih.trans hadvances.1

/-- **Reminders change once per operation.** In every run of calls that meet the condition, with any
clocks, while access is given and taken away:

* an owner has one active reminder for a conversation of a mailbox at most;
* the version of a reminder is one more than the number of its updates;
* a reminder that is not active stays as it is;
* an operation id of an owner causes one update at most, and the recorded result is the reminder
  right after it;
* an idempotency key of an owner belongs to one reminder, and the recorded result is its first
  version;
* a call that is answered with a reminder was recorded with it; a call whose key was recorded before
  it is answered with the record, or with a conflict if it asks for something else, unless the user
  has no access. -/
theorem reminders_change_once (hprints : PrintsDates host.toHostRuntime)
    {access : List (String × String)} {pool : Pool ReminderOp ReminderOp.Answer Answered World}
    (hpool : Reachable ReminderOp.Exec (Starts host) (.start access) pool) :
    ((pool.state.reminders.filter (·.isActive)).map (·.conversation)).Nodup ∧
    (∀ row ∈ pool.state.reminders, row.version =
      1 + pool.state.updates.countP fun update => update.before.id = row.id) ∧
    (∀ pool', Relation.ReflTransGen (Turn ReminderOp.Exec (Starts host)) pool pool' →
      ∀ row ∈ pool.state.reminders, row.isActive = false → row ∈ pool'.state.reminders) ∧
    (pool.state.updates.filterMap (·.cause)).Nodup ∧
    (∀ key fingerprint reminder, pool.state.findOperation key = some (fingerprint, reminder) →
      ∃ update ∈ pool.state.updates, update.cause = some key ∧
        fromRow update.after = some reminder) ∧
    (pool.state.reminders.map (·.createKey)).Nodup ∧
    (∀ key fingerprint reminder, pool.state.findCreate key = some (fingerprint, reminder) →
      ∃ row ∈ pool.state.reminders, row.createKey = key ∧ reminder.id = row.id ∧
        reminder.version = 1) ∧
    ∀ answered, .done answered ∈ pool.programs → answered.Right host pool.state := by
  have hwaits : ∀ op, (rules host.toHostRuntime).waits op = true := fun _ => rfl
  have hstarts : ∀ s p, (rules host.toHostRuntime).Inv s → Starts host s p →
      KeepsTo host.toHostRuntime (Answered.Right host) p s :=
    fun _ _ _ hstart => starts_keeps hprints hstart
  obtain ⟨hkeeps, -⟩ := Reachable.keepsPool hwaits (fun _ _ h => h) right_stable hstarts
    (Consistent.start access) hpool
  have hinv : Consistent host.toHostRuntime pool.state := hkeeps.inv
  refine ⟨hinv.active, hinv.versions, fun pool' hturns row hrow hresolved => ?_, ?_, ?_,
    hinv.createKeys, ?_, fun answered hdone => hkeeps.keeps _ hdone⟩
  · obtain ⟨-, hsince⟩ := Turn.keepsPools hwaits (fun _ _ h => h) right_stable hstarts hturns hkeeps
    obtain ⟨row', hrow', rfl | ⟨hactive, -⟩⟩ := (later_of_since hsince).reminders row hrow
    · exact hrow'
    · exact absurd (hresolved.symm.trans hactive) Bool.false_ne_true
  · rw [hinv.causes]
    exact hinv.operationKeys
  · intro key fingerprint reminder hfind
    obtain ⟨operation, hoperation, hrecord⟩ := Option.map_eq_some_iff.mp hfind
    obtain ⟨hmem, rfl⟩ := lookup_eq_some hoperation
    obtain ⟨update, hupdate, hcause, -, hresult⟩ := hinv.results operation hmem
    exact ⟨update, hupdate, hcause, (Prod.mk.inj hrecord).2 ▸ hresult⟩
  · intro key fingerprint reminder hfind
    obtain ⟨row, hrow, hrecord⟩ := Option.map_eq_some_iff.mp hfind
    obtain ⟨hmem, hkey⟩ := lookup_eq_some hrow
    obtain rfl := (Prod.mk.inj hrecord).2
    exact ⟨row, hmem, hkey, (hinv.snapshots row hmem).id, (hinv.snapshots row hmem).version⟩

/-! ### What the condition leaves out -/

/-- What `create` does after its time. -/
theorem create_late {input parsed : CreateReminder}
    (hparse : input.parse host.toHostRuntime = some parsed)
    (hlate : isFutureReminder host.toHostRuntime parsed.remindAt timestamp = false) :
    create host userId mailboxAddress input timestamp anchor = (do
      let allowed : Bool ← query (.canAccessMailbox userId (host.toLowerCase mailboxAddress))
      if !allowed then return .error forbidden else return .error notFuture) := by
  simp only [create, hparse, hlate]
  rfl

/-! ### A create that is sent again -/

def sampleDates : List (String × ℤ) :=
  [("1970-01-01T00:00:00.000Z", 0), ("1970-01-01T00:01:00.000Z", 60000)]

/-- A host that can read two dates. -/
def sampleHost : ReminderHost where
  dateParse text := (sampleDates.find? (·.1 = text)).map (·.2)
  localeCompare _ _ := .eq
  toLowerCase text := text
  isEmail _ := true

theorem sampleHost_prints : PrintsDates sampleHost.toHostRuntime := by
  have hdates : ∀ date ∈ sampleDates, toISOString date.2 = some date.1 ∧
      sampleHost.dateParse date.1 = some date.2 := by decide
  refine ⟨fun text t htext => ?_⟩
  obtain ⟨date, hdate, rfl⟩ := Option.map_eq_some_iff.mp htext
  exact ⟨date.1, hdates date (List.mem_of_find?_eq_some hdate)⟩

def sampleInput : CreateReminder := ⟨"email_1", "1970-01-01T00:01:00.000Z", "create_1"⟩

def sampleAnchor : AuthoritativeReminderAnchor :=
  ⟨"conversation_1", "message_1", "1970-01-01T00:00:00.000Z"⟩

def sampleFingerprint : CreateFingerprint :=
  ⟨"desk@example.com", "email_1", "1970-01-01T00:01:00.000Z"⟩

def sampleReminder : FollowUpReminder :=
  newReminder "reminder_1" "user_1" "desk@example.com" sampleAnchor "1970-01-01T00:01:00.000Z" 0

/-- The call, at a time. -/
def sampleCall (timestamp : ℤ) : Call :=
  .create "user_1" "desk@example.com" sampleInput timestamp (some sampleAnchor)

def sampleStart : World := .start [("user_1", "desk@example.com")]

/-- The world after the first call. -/
def sampleCreated : World :=
  { sampleStart with
    reminders := [insertedRow sampleReminder 0 60000 "create_1" sampleFingerprint]
    drawn := ["reminder_1"] }

theorem sampleInput_parse : sampleInput.parse sampleHost.toHostRuntime = some sampleInput := by
  decide +kernel

theorem sampleAnchor_usable :
    sampleAnchor.isUsable sampleHost.toHostRuntime 0 = true := by
  decide +kernel

/-- What `create` does for an input and an anchor that are in order. -/
theorem create_eq {input parsed : CreateReminder} {anchor : AuthoritativeReminderAnchor}
    (hparse : input.parse host.toHostRuntime = some parsed)
    (hfuture : isFutureReminder host.toHostRuntime parsed.remindAt timestamp = true)
    (husable : anchor.isUsable host.toHostRuntime timestamp = true) :
    create host userId mailboxAddress input timestamp (some anchor) = (do
      let mailbox := host.toLowerCase mailboxAddress
      let fingerprint : CreateFingerprint := ⟨mailbox, parsed.emailId, parsed.remindAt⟩
      let allowed : Bool ← query (.canAccessMailbox userId mailbox)
      if !allowed then return .error forbidden
      else
        let replay : Option (CreateFingerprint × FollowUpReminder) ←
          query (.findCreate userId parsed.idempotencyKey)
        match replay with
        | some replay => return replayOf replay fingerprint createConflict
        | none =>
            let id : String ← query .createId
            createOrReplay host (newReminder id userId mailbox anchor parsed.remindAt timestamp)
              parsed.idempotencyKey fingerprint) := by
  simp only [create, hparse, hfuture, husable]
  rfl

/-- The user is let in. -/
theorem sample_allowed (w : World) (h : w.access = sampleStart.access) :
    (ReminderOp.canAccessMailbox "user_1" (sampleHost.toLowerCase "desk@example.com")).Exec
      w true w := by
  have hallows : w.allows (sampleHost.toLowerCase "desk@example.com") "user_1" = true := by
    rw [World.allows, h]
    decide
  exact ⟨hallows.symm, (if_pos hallows).symm⟩

/-- The first call creates the reminder. -/
theorem sample_create : Runs ReminderOp.Exec ((sampleCall 0).program sampleHost) sampleStart
    (.reminder (.ok sampleReminder)) sampleCreated := by
  have hfuture : isFutureReminder sampleHost.toHostRuntime sampleInput.remindAt 0 = true := by
    decide
  have hinserted : (Except.ok true, sampleCreated) =
      World.insertReminder { sampleStart with drawn := ["reminder_1"] } sampleReminder (some 0)
        (some 60000) "create_1" sampleFingerprint := by decide
  have hinsert : (ReminderOp.insertReminder sampleReminder (some 0) (some 60000) "create_1"
      sampleFingerprint).Exec { sampleStart with drawn := ["reminder_1"] }
        (Except.ok true : Except DatabaseError Bool) sampleCreated := hinserted
  have hcreate : Runs ReminderOp.Exec (create sampleHost "user_1" "desk@example.com" sampleInput 0
      (some sampleAnchor)) sampleStart (.ok sampleReminder) sampleCreated := by
    rw [create_eq sampleInput_parse hfuture sampleAnchor_usable]
    refine .call (r := true) (sample_allowed sampleStart rfl) ?_
    refine .call (r := none) ⟨by decide, rfl⟩ ?_
    refine .call (r := "reminder_1") ⟨by decide, rfl⟩ ?_
    refine .call (r := none) ⟨by decide, rfl⟩ ?_
    exact .call hinsert (.done _ _)
  exact hcreate.bind (.done _ _)

/-- Before its time, the call that is sent again is answered from the record. -/
theorem sample_replay : Runs ReminderOp.Exec ((sampleCall 1000).program sampleHost) sampleCreated
    (.reminder (.ok sampleReminder)) sampleCreated := by
  have hfuture : isFutureReminder sampleHost.toHostRuntime sampleInput.remindAt 1000 = true := by
    decide
  have husable : sampleAnchor.isUsable sampleHost.toHostRuntime 1000 = true := by decide +kernel
  have hcreate : Runs ReminderOp.Exec (create sampleHost "user_1" "desk@example.com" sampleInput
      1000 (some sampleAnchor)) sampleCreated (.ok sampleReminder) sampleCreated := by
    rw [create_eq sampleInput_parse hfuture husable]
    refine .call (r := true) (sample_allowed sampleCreated rfl) ?_
    refine .call (r := some (sampleFingerprint, sampleReminder)) ⟨by decide, rfl⟩ ?_
    exact .done _ _
  exact hcreate.bind (.done _ _)

/-- At its time, the call that is sent again is refused. -/
theorem sample_late : Runs ReminderOp.Exec ((sampleCall 60000).program sampleHost) sampleCreated
    (.reminder (.error notFuture)) sampleCreated := by
  have hlate : isFutureReminder sampleHost.toHostRuntime sampleInput.remindAt 60000 = false := by
    decide
  have hcreate : Runs ReminderOp.Exec (create sampleHost "user_1" "desk@example.com" sampleInput
      60000 (some sampleAnchor)) sampleCreated (.error notFuture) sampleCreated := by
    rw [create_late sampleInput_parse hlate]
    refine .call (r := true) (sample_allowed sampleCreated rfl) ?_
    exact .done _ _
  exact hcreate.bind (.done _ _)

/-- A call starts and runs, while the others wait. -/
theorem call_reachable {starts : World → Asking Answered → Prop} {programs : List (Asking Answered)}
    {reply : Reply} (h : Reachable ReminderOp.Exec starts sampleStart ⟨w, programs⟩)
    (hstart : starts w ((call.program host).bind fun reply => .done ⟨call, w, reply⟩))
    (hruns : Runs ReminderOp.Exec (call.program host) w reply w') :
    Reachable ReminderOp.Exec starts sampleStart ⟨w', .done ⟨call, w, reply⟩ :: programs⟩ := by
  have hanswered : Runs ReminderOp.Exec ((call.program host).bind fun reply =>
      (.done ⟨call, w, reply⟩ : Asking Answered)) w ⟨call, w, reply⟩ w' := hruns.bind (.done _ _)
  exact (h.tail (.start _ _ _ hstart)).trans (hanswered.turns programs)

/-- The results hold of a run in which a create is sent again before its time. -/
theorem reminders_change_once_replay : ∃ pool : Pool ReminderOp ReminderOp.Answer Answered World,
    Reachable ReminderOp.Exec (Starts sampleHost) sampleStart pool ∧
      pool.programs.length = 2 ∧ (pool.state.reminders.map (·.createKey)).Nodup := by
  have hfirst : (sampleCall 0).Meets sampleHost sampleStart := fun parsed _ h => by
    simp [sampleStart, World.start, World.findCreate, lookup] at h
  have hagain : (sampleCall 1000).Meets sampleHost sampleCreated := fun parsed hparse _ => by
    obtain rfl := Option.some.inj (sampleInput_parse.symm.trans hparse)
    decide
  have hcreated : Reachable ReminderOp.Exec (Starts sampleHost) sampleStart
      ⟨sampleCreated, [.done ⟨sampleCall 0, sampleStart, .reminder (.ok sampleReminder)⟩]⟩ :=
    call_reachable .refl ⟨sampleCall 0, hfirst, rfl⟩ sample_create
  have hpool := call_reachable hcreated ⟨sampleCall 1000, hagain, rfl⟩ sample_replay
  exact ⟨_, hpool, rfl, (reminders_change_once sampleHost_prints hpool).2.2.2.2.2.1⟩

/-- The clients' programs: any call. -/
def StartsAny (host : ReminderHost) (w : World) (p : Asking Answered) : Prop :=
  ∃ call : Call, p = (call.program host).bind fun reply => .done ⟨call, w, reply⟩

/-- **A create that is sent again at its time is not answered from the record**: without the
condition, the results do not hold. -/
theorem late_create_not_replayed : ¬ ∀ pool : Pool ReminderOp ReminderOp.Answer Answered World,
    Reachable ReminderOp.Exec (StartsAny sampleHost) sampleStart pool →
    ∀ answered, .done answered ∈ pool.programs → answered.Right sampleHost pool.state := by
  intro hall
  have hcreated : Reachable ReminderOp.Exec (StartsAny sampleHost) sampleStart
      ⟨sampleCreated, [.done ⟨sampleCall 0, sampleStart, .reminder (.ok sampleReminder)⟩]⟩ :=
    call_reachable .refl ⟨sampleCall 0, rfl⟩ sample_create
  have hpool := call_reachable hcreated ⟨sampleCall 60000, rfl⟩ sample_late
  have hright := hall _ hpool _ List.mem_cons_self sampleInput sampleInput_parse
  have hrecorded : sampleCreated.findCreate ("user_1", sampleInput.idempotencyKey) =
      some (sampleFingerprint, sampleReminder) := by decide
  rcases hright.replayed sampleReminder hrecorded with hok | ⟨hforbidden, -⟩
  · cases hok
  · cases hforbidden

end MailPortal.Reminders
