import MailPortal.Bulk.SentOnce

/-!
# A Pass that Nothing Fails

A pass whose calls all succeed settles its row and goes on to the next, whatever the row says: what
has been admitted can be rendered, and an enqueue that is refused has met a delivery under the key
of the row, which the look-up after it finds.

Main results:

* `bulkPass_advances` : the pass settles its row, while others act.
* `bulk_rows_sent_once` : the accounts of all jobs in every state of every run.
-/

namespace MailPortal.Bulk

open Concurrent

variable {platform : BulkPlatform} {s s' : BulkStore} {jobId : String} {job : BulkJob}
  {rows : List BulkRecipient} {row : BulkRecipient}
variable {op : Op} {β : Type} {Q : Option β → BulkStore → Prop} {f : Value op → Throws Op Value β}
  {next : BulkJob}
variable {α : Type} {P : α → BulkStore → Prop} {settled : BulkJob}

/-! ### Calls that succeed -/

/-- Every call is answered. The actor has access to the mailbox, and the job is due. -/
def Succeeds (platform : BulkPlatform) (due : ℤ) (op : Op) (s : BulkStore)
    (answer : Option (Value op)) (s' : BulkStore) : Prop :=
  exec platform op s answer s' ∧
    match op, answer with
    | _, none => False
    | .canAccessMailbox .., some canAccess => canAccess = true
    | .now, some now => due ≤ now
    | _, some _ => True

/-- Others act between the calls. -/
def amongOthers (platform : BulkPlatform) : Rules Op BulkStore where
  Inv _ := True
  Step _ _ := True
  Others := Others platform
  waits _ := true

/-- **The program ends** in a state with `Q`, when no call fails. -/
abbrev Succeeding {α : Type} (platform : BulkPlatform) (due : ℤ) (Q : α → BulkStore → Prop)
    (p : Fallible Op Value α) (s : BulkStore) : Prop :=
  p.Keeps (Succeeds platform due) (amongOthers platform) Q s

/-- The program returns, with `P`. -/
def Ok {α : Type} (P : α → BulkStore → Prop) (o : Option α) (s : BulkStore) : Prop :=
  ∃ a, o = some a ∧ P a s

theorem ok {a : α} (h : P a s) : Ok P (some a) s :=
  ⟨a, rfl, h⟩

theorem Succeeds.answered {due : ℤ} {answer : Option (Value op)}
    (h : Succeeds platform due op s answer s') :
    ∃ value, answer = some value ∧ exec platform op s (some value) s' := by
  obtain ⟨hexec, hanswer⟩ := h
  cases answer with
  | none => cases op <;> exact hanswer.elim
  | some value => exact ⟨value, rfl, hexec⟩

section Calls

variable {K : BulkStore → Prop} {due : ℤ}

/-- **The rule of a call.** -/
theorem succeeding_perform (hlasts : Lasts (amongOthers platform) K) (hK : K s)
    (h : ∀ s₁ value s₂, K s₁ → Succeeds platform due op s₁ (some value) s₂ →
      Succeeding platform due Q (f value).run s₂) :
    Succeeding platform due Q (perform op >>= f).run s := by
  refine keeps_perform hlasts hK fun s₁ answer s₂ _ hK₁ hexec => ?_
  obtain ⟨value, rfl, -⟩ := hexec.answered
  exact ⟨trivial, trivial, fun h => (by cases h), fun value' hvalue =>
    Option.some.inj hvalue ▸ h s₁ value s₂ hK₁ hexec⟩

section

variable (hlocal : op.isLocal = true) (hknown : Knowledge platform K) (hK : K s)
include hlocal hknown hK

/-- … that changes preparations only. -/
theorem succeeding_read (h : ∀ s₁ value s₂, Succeeds platform due op s₁ (some value) s₂ → K s₂ →
      Succeeding platform due Q (f value).run s₂) :
    Succeeding platform due Q (perform op >>= f).run s := by
  refine succeeding_perform hknown.others hK fun s₁ value s₂ hK₁ hsucceeds => ?_
  obtain ⟨preparations, rfl⟩ := local_of_isLocal hlocal platform s₁ _ s₂ hsucceeds.1
  exact h s₁ value _ hsucceeds (hknown.preparations s₁ preparations hK₁)

/-- … and whose answer does not matter. -/
theorem succeeding_local (h : ∀ value s₂, K s₂ → Succeeding platform due Q (f value).run s₂) :
    Succeeding platform due Q (perform op >>= f).run s :=
  succeeding_read hlocal hknown hK fun _ value s₂ _ hK₂ => h value s₂ hK₂

/-- … and whose failure would be a value. -/
theorem succeeding_attempt {Q : β → BulkStore → Prop} {f : Option (Value op) → Fallible Op Value β}
    (h : ∀ value s₂, K s₂ → Succeeding platform due Q (f (some value)) s₂) :
    Succeeding platform due Q ((perform op).run >>= f) s := by
  refine keeps_attempt hknown.others hK fun s₁ answer s₂ _ hK₁ hsucceeds => ?_
  obtain ⟨value, rfl, hexec⟩ := hsucceeds.answered
  obtain ⟨preparations, rfl⟩ := local_of_isLocal hlocal platform s₁ _ s₂ hexec
  exact ⟨trivial, trivial, h value _ (hknown.preparations s₁ preparations hK₁)⟩

/-- … with nothing after it. -/
theorem succeeding_last :
    Succeeding platform due (Ok fun _ => K) (perform op : Throws Op Value (Value op)).run s :=
  succeeding_attempt hlocal hknown hK fun _ _ hK₂ => ok hK₂

end

/-- The rule of sequence. -/
theorem succeeding_bind {p : Throws Op Value α} {f : α → Throws Op Value β}
    (h : Succeeding platform due (Ok P) p.run s)
    (hnext : ∀ a s', P a s' → Succeeding platform due Q (f a).run s') :
    Succeeding platform due Q (p >>= f).run s := by
  refine Prog.Keeps.bindThrowing (h.mono fun o s' ho => ?_)
  obtain ⟨a, rfl, ha⟩ := ho
  exact ⟨fun hnone => (by cases hnone), fun a' ha' => Option.some.inj ha' ▸ hnext a s' ha⟩

end Calls

/-! ### A row is settled -/

/-- There is a delivery under the key of a row. -/
def Taken (idempotencyKey : String) (s : BulkStore) : Prop :=
  ∃ delivery, s.delivery idempotencyKey = some delivery

theorem Taken.append {key : String} {deliveries : List OutboundDelivery} (h : Taken key s)
    (hdeliveries : s'.deliveries = s.deliveries ++ deliveries) : Taken key s' := by
  obtain ⟨delivery, hdelivery⟩ := h
  refine ⟨delivery, ?_⟩
  rw [BulkStore.delivery, hdeliveries, List.find?_append]
  rw [BulkStore.delivery] at hdelivery
  rw [hdelivery]
  rfl

/-- The job is stored, and the look-up will find a delivery. -/
theorem taken_known (key : String) :
    Knowledge platform fun s => Working jobId job rows s ∧ Taken key s where
  others s s' hothers h := by
    refine ⟨h.1.others hothers, ?_⟩
    cases hothers with
    | enqueued => exact h.2.append rfl
    | _ => exact h.2
  preparations _ preparations h := ⟨h.1.with_preparations preparations, h.2⟩

/-- How an attempt can end: when no error is of the recipient there is a delivery. -/
def AttemptEnds (jobId : String) (stored job : BulkJob) (rows : List BulkRecipient)
    (outcome : Option (Option RecipientError)) (s : BulkStore) : Prop :=
  Working jobId stored rows s ∧
    (outcome = none → Taken (recipientKey job.id job.cursor) s)

section Parts

variable {stored : BulkJob} {due : ℤ} {K : BulkStore → Prop} {snapshot : OutboundSnapshot}
  {fingerprint messageId : String}

section

variable (hknown : Knowledge platform K)
include hknown

theorem copyAttachments_ok (copies : List (BulkAttachment × String)) (hK : K s) :
    Succeeding platform due (Ok fun _ => K) (copyAttachments copies).run s := by
  induction copies generalizing s with
  | nil => exact ok hK
  | cons copy copies ih =>
      refine succeeding_local rfl hknown hK fun source s₂ hK₂ => ?_
      split
      · exact succeeding_local rfl hknown hK₂ fun _ _ hK₃ => ih hK₃
      · exact ok hK₂

theorem prepareCopies_ok (job : BulkJob) (preparation : Option BulkRecipientPreparation)
    (hK : K s) :
    Succeeding platform due (Ok fun _ => K) (prepareCopies job preparation).run s := by
  cases preparation with
  | none => exact ok hK
  | some preparation =>
      exact succeeding_local rfl hknown hK fun _ _ hK₂ => copyAttachments_ok hknown _ hK₂

theorem deleteOrphans_ok (emailId : String) (keys : List String) (hK : K s) :
    Succeeding platform due (Ok fun _ => K) (deleteOrphans emailId keys).run s := by
  cases keys with
  | nil => exact ok hK
  | cons key keys =>
      exact Prog.Keeps.bindLift (succeeding_attempt rfl hknown hK fun _ _ hK₂ => ok hK₂)

end

/-- **An enqueue that is refused** has met a delivery. -/
theorem enqueueOutboundInternal_ends (hworking : Working jobId stored rows s)
    {delivery : OutboundDelivery} (hkey : delivery.idempotencyKey = recipientKey job.id job.cursor)
    (preparation : Option BulkRecipientPreparation) :
    Succeeding platform due (AttemptEnds jobId stored job rows)
      (enqueueOutboundInternal platform delivery fingerprint preparation).run s := by
  rw [enqueueOutboundInternal]
  split
  · exact ⟨hworking, fun h => by cases h⟩
  · refine succeeding_perform working_known.others hworking
      fun s₁ result s₂ hworking₁ hsucceeds => ?_
    obtain ⟨rfl, rfl⟩ := Outcome.answered hsucceeds.1
    obtain ⟨preparations, ⟨-, heq⟩ | ⟨existing, reason, hexisting, heq⟩ | ⟨existing, -, -, heq⟩⟩ :=
      enqueue_cases delivery fingerprint preparation s₁
    all_goals rw [heq]
    · have hworking₂ : Working jobId stored rows
          { s₁ with preparations, deliveries := s₁.deliveries ++ [delivery] } :=
        ⟨hworking₁.stored, hworking₁.active, hworking₁.admitted⟩
      exact Prog.Keeps.bindLift
        (succeeding_attempt rfl working_known hworking₂ fun _ s₃ hworking₃ =>
        ⟨hworking₃, fun h => by cases h⟩)
    · exact ⟨hworking₁.with_preparations preparations, fun _ => ⟨existing, hkey ▸ hexisting⟩⟩
    · refine Prog.Keeps.bindLift (succeeding_attempt rfl working_known
        (hworking₁.with_preparations preparations) fun _ s₃ hworking₃ => ?_)
      dsimp only
      split
      · exact succeeding_bind (deleteOrphans_ok working_known _ _ hworking₃) fun _ _ hworking₄ =>
          ⟨hworking₄, fun h => by cases h⟩
      · exact ⟨hworking₃, fun h => by cases h⟩

theorem attemptRecipient_ends (hworking : Working jobId stored rows s) :
    Succeeding platform due (fun attempt => AttemptEnds jobId stored job rows attempt.outcome)
      (attemptRecipient platform job snapshot fingerprint) s := by
  refine succeeding_attempt rfl working_known hworking fun generated s₂ hworking₂ => ?_
  refine succeeding_attempt rfl working_known hworking₂ fun preparation s₃ hworking₃ => ?_
  refine Prog.Keeps.bind (succeeding_bind
    (prepareCopies_ok working_known job preparation hworking₃) fun copied s₄ hworking₄ => ?_)
  cases copied with
  | some error => exact ⟨hworking₄, fun h => by cases h⟩
  | none => exact enqueueOutboundInternal_ends hworking₄ rfl preparation

theorem finishAttempt_ok (hknown : Knowledge platform K) (attempt : Attempt)
    (committedToEmailId : Option String) (hK : K s) :
    Succeeding platform due (Ok fun _ => K) (finishAttempt attempt committedToEmailId).run s := by
  rw [finishAttempt]
  split
  · exact succeeding_last rfl hknown hK
  · exact ok hK

/-- The row was counted. -/
def Counted (job : BulkJob) (row : BulkRecipient) (settled : BulkJob) : Prop :=
  settled = job.countEnqueued ∨ settled = job.countFailed row

/-- A row is left to the next pass only if no error is of the recipient and it has no delivery. -/
theorem reconcileRecipient_ok {attempt : Attempt}
    (hends : AttemptEnds jobId stored job rows (attempt.outcome.join.map some) s) :
    Succeeding platform due
      (Ok fun settled s' => Working jobId stored rows s' ∧ Counted job row settled)
      (reconcileRecipient job row fingerprint attempt).run s := by
  have hknown : Knowledge platform fun s => AttemptEnds jobId stored job rows
      (attempt.outcome.join.map some) s := by
    constructor
    · intro s s' hothers h
      exact ⟨h.1.others hothers, fun hnone =>
        ((taken_known _).others s s' hothers ⟨h.1, h.2 hnone⟩).2⟩
    · exact fun _ preparations h => ⟨h.1.with_preparations preparations, h.2⟩
  refine succeeding_perform hknown.others hends fun s₁ authoritative s₂ hends₁ hsucceeds => ?_
  obtain ⟨rfl, rfl⟩ := Outcome.answered hsucceeds.1
  have hfailed : Succeeding platform due
      (Ok fun settled s' => Working jobId stored rows s' ∧ Counted job row settled)
      (finishAttempt attempt none >>= fun _ => pure (job.countFailed row)).run s₂ :=
    succeeding_bind (finishAttempt_ok working_known attempt _ hends₁.1) fun _ _ hworking₃ =>
      ok ⟨hworking₃, .inr rfl⟩
  dsimp only
  cases hstatus : (planBulkEnqueueReconciliation (s₂.delivery (recipientKey job.id job.cursor))
      attempt.messageId fingerprint).status with
  | exact =>
      refine succeeding_bind (finishAttempt_ok working_known attempt _ hends₁.1)
        fun _ s₃ hworking₃ => ?_
      exact succeeding_local rfl working_known hworking₃ fun _ _ hworking₄ =>
        ok ⟨hworking₄, .inl rfl⟩
  | conflict reason => exact hfailed
  | none =>
      cases herror : attempt.outcome.join with
      | some error => exact hfailed
      | none =>
          obtain ⟨delivery, hdelivery⟩ := hends₁.2 (by rw [herror]; rfl)
          rw [hdelivery, planBulkEnqueueReconciliation, classifyOutboundReplay] at hstatus
          dsimp only at hstatus
          split at hstatus
          · cases hstatus
          · split at hstatus <;> cases hstatus

theorem settleRow_ok (hworking : Working jobId stored rows s) :
    Succeeding platform due
      (Ok fun settled s' => Working jobId stored rows s' ∧ Counted job row settled)
      (settleRow platform job row snapshot fingerprint
        (s.delivery (recipientKey job.id job.cursor))).run s := by
  cases hfound : s.delivery (recipientKey job.id job.cursor) with
  | none =>
      refine Prog.Keeps.bindLift ((attemptRecipient_ends hworking).mono fun attempt s₂ hends => ?_)
      cases houtcome : attempt.outcome with
      | none => exact reconcileRecipient_ok (by rw [houtcome] at hends ⊢; exact hends)
      | some error =>
          cases error with
          | none => exact ok ⟨hends.1, .inl rfl⟩
          | some error => exact reconcileRecipient_ok (by rw [houtcome] at hends ⊢; exact hends)
  | some authoritative =>
      rw [settleRow]
      split
      · exact succeeding_local rfl working_known hworking fun _ _ hworking₂ =>
          ok ⟨hworking₂, .inl rfl⟩
      · exact succeeding_local rfl (taken_known _) ⟨hworking, authoritative, hfound⟩
          fun _ _ hK₂ => reconcileRecipient_ok ⟨hK₂.1, fun _ => hK₂.2⟩

/-! ### The job is written -/

/-- The record of the job, until it is over and forgotten. -/
def Written (jobId : String) (next : BulkJob) (rows : List BulkRecipient) (s : BulkStore) : Prop :=
  (s.jobs jobId = some next ∨ next.status = .done ∧ s.jobs jobId = none) ∧
    s.admitted jobId = some rows

theorem written_known (hstatus : next.active = true ∨ next.status = .done) :
    Knowledge platform (Written jobId next rows) where
  others s s' hothers h := by
    obtain ⟨hjob, hadmitted⟩ := h
    have hpreparing : ∀ {id : String} {other : BulkJob}, s.jobs id = some other →
        other.status = .preparing → jobId ≠ id := by
      rintro id other hother hpreparing rfl
      rcases hjob with hjob | ⟨-, hjob⟩
      · obtain rfl := Option.some.inj (hjob.symm.trans hother)
        rcases hstatus with hstatus | hstatus
        · rw [active_of_preparing hpreparing] at hstatus
          cases hstatus
        · cases hstatus.symm.trans hpreparing
      · cases hjob.symm.trans hother
    cases hothers with
    | admitted id other otherRows hnew hadmits =>
        have hne : jobId ≠ id := by
          rintro rfl
          cases hnew.symm.trans hadmitted
        refine ⟨?_, (Function.update_of_ne hne ..).trans hadmitted⟩
        simpa [BulkStore.setJob, Function.update_of_ne hne] using hjob
    | prepared id other attachments now hother hpreparingOther =>
        refine ⟨?_, hadmitted⟩
        simpa [BulkStore.setJob, Function.update_of_ne
          (hpreparing hother hpreparingOther)] using hjob
    | givenUp id other error now hother hpreparingOther =>
        refine ⟨?_, hadmitted⟩
        simpa [BulkStore.setJob, Function.update_of_ne
          (hpreparing hother hpreparingOther)] using hjob
    | requeued => exact ⟨hjob, hadmitted⟩
    | pruned id other hother hterminal =>
        refine ⟨?_, hadmitted⟩
        by_cases hmine : jobId = id
        · subst hmine
          have hdone : next.status = .done := by
            rcases hjob with hjob | ⟨hdone, -⟩
            · obtain rfl := Option.some.inj (hjob.symm.trans hother)
              refine hstatus.resolve_left fun hactive => ?_
              rw [active_of_terminal hterminal] at hactive
              cases hactive
            · exact hdone
          exact .inr ⟨hdone, Function.update_self ..⟩
        · simpa [Function.update_of_ne hmine] using hjob
    | preparationDropped => exact ⟨hjob, hadmitted⟩
    | enqueued => exact ⟨hjob, hadmitted⟩
  preparations _ _ h := h

theorem endJob_ok (hworking : Working jobId stored rows s) (hdone : next.status = .done) :
    Succeeding platform due (Ok fun _ => Written jobId next rows)
      (endJob jobId (some next)).run s := by
  have hknown : Knowledge platform (Written jobId next rows) := written_known (.inr hdone)
  refine succeeding_perform working_known.others hworking
    fun s₁ remainingJobs s₂ hworking₁ hsucceeds => ?_
  obtain ⟨-, rfl⟩ := Outcome.answered hsucceeds.1
  have hwritten : Written jobId next rows (s₁.commitTerminal jobId (some next)) :=
    ⟨.inl (Function.update_self ..), hworking₁.admitted⟩
  refine succeeding_local rfl hknown hwritten fun _ s₃ hwritten₃ => ?_
  split
  · exact succeeding_local rfl hknown hwritten₃ fun _ _ hwritten₄ =>
      succeeding_last rfl hknown hwritten₄
  · exact ok hwritten₃

/-- The row at the cursor is counted, and the cursor goes on. -/
def Advanced (jobId : String) (job : BulkJob) (rows : List BulkRecipient) (s : BulkStore) : Prop :=
  ∃ next, Written jobId next rows s ∧ next.cursor = job.cursor + 1 ∧
    ((next.enqueued = job.enqueued + 1 ∧ next.failed = job.failed) ∨
      (next.enqueued = job.enqueued ∧ next.failed = job.failed + 1))

theorem Counted.advanced (hcounted : Counted job row settled) {now : ℤ} {random : ℚ}
    {status : BulkJobStatus} (hnext : next = { settled.advanced now random with status })
    (hwritten : Written jobId next rows s) : Advanced jobId job rows s := by
  subst hnext
  rcases hcounted with rfl | rfl
  · exact ⟨_, hwritten, rfl, .inl ⟨rfl, rfl⟩⟩
  · exact ⟨_, hwritten, rfl, .inr ⟨rfl, rfl⟩⟩

theorem advance_ok (hworking : Working jobId stored rows s) (hactive : job.active = true)
    (hcounted : Counted job row settled) :
    Succeeding platform due (Ok fun _ => Advanced jobId job rows)
      (advance jobId rows settled).run s := by
  refine succeeding_local rfl working_known hworking fun now s₂ hworking₂ => ?_
  refine succeeding_local rfl working_known hworking₂ fun random s₃ hworking₃ => ?_
  split
  · refine (endJob_ok hworking₃ rfl).mono fun o s' ho => ?_
    obtain ⟨_, rfl, hwritten⟩ := ho
    exact ok (hcounted.advanced rfl hwritten)
  · refine succeeding_perform working_known.others hworking₃ fun s₄ _ s₅ hworking₄ hsucceeds => ?_
    obtain ⟨-, rfl⟩ := Outcome.answered hsucceeds.1
    have hgoes : (settled.advanced now random).active = job.active := by
      rcases hcounted with rfl | rfl <;> rfl
    have hwritten : Written jobId (settled.advanced now random) rows
        (s₄.setJob jobId (settled.advanced now random)) :=
      ⟨.inl (Function.update_self jobId _ s₄.jobs), hworking₄.admitted⟩
    refine (succeeding_last rfl (written_known (.inl (hgoes.trans hactive))) hwritten).mono
      fun o s' ho => ?_
    obtain ⟨_, rfl, hwritten⟩ := ho
    exact ok (hcounted.advanced rfl hwritten)

/-! ### The pass -/

theorem renderOptional_isSome {template : Option String} {escapeValues : Bool}
    (h : ∀ value, template = some value →
      ∃ text, renderBulkTemplate platform.toBulkHost value row escapeValues = some text) :
    ∃ text, renderOptional platform template row escapeValues = some text := by
  cases template with
  | none => exact ⟨none, rfl⟩
  | some value =>
      rw [renderOptional]
      split
      · exact ⟨none, rfl⟩
      · obtain ⟨text, htext⟩ := h value rfl
        exact ⟨some text, by rw [htext]; rfl⟩

/-- **What was admitted can be rendered.** -/
theorem renderRecipient_isSome
    (hhtml : bulkPersonalizedHtmlValidationError platform.toBulkHost job.html rows = some none)
    (hrow : row ∈ rows) : ∃ snapshot, renderRecipient platform job row = some snapshot := by
  have htext : ∀ template, ∃ text,
      renderBulkTemplate platform.toBulkHost template row false = some text :=
    fun template => renderBulkTemplate_text template row
  obtain ⟨subject, hsubject⟩ := htext job.subject
  obtain ⟨html, hrendered⟩ : ∃ html, renderOptional platform job.html row true = some html :=
    renderOptional_isSome fun template htemplate =>
      renders_of_admitted (htemplate ▸ hhtml) hrow
  obtain ⟨text, hplain⟩ : ∃ text, renderOptional platform job.text row false = some text :=
    renderOptional_isSome fun template _ => htext template
  rw [renderRecipient, hsubject, hrendered, hplain]
  exact ⟨_, rfl⟩

section

variable (hworking : Working jobId stored rows s) (hactive : job.active = true)
include hworking hactive

theorem sendRecipient_ok :
    Succeeding platform due (Ok fun _ => Advanced jobId job rows)
      (sendRecipient platform jobId job rows row snapshot).run s := by
  refine succeeding_read rfl working_known hworking
    fun s₁ authoritative s₂ hsucceeds hworking₂ => ?_
  obtain ⟨rfl, rfl⟩ := Outcome.answered hsucceeds.1
  exact succeeding_bind (settleRow_ok hworking₂) fun settled s₃ hsettled =>
    advance_ok hsettled.1 hactive hsettled.2

theorem recipientStep_ok
    (hhtml : bulkPersonalizedHtmlValidationError platform.toBulkHost job.html rows = some none)
    (hcursor : job.cursor < rows.length) :
    Succeeding platform due (Ok fun _ => Advanced jobId job rows)
      (recipientStep platform jobId job rows).run s := by
  obtain ⟨snapshot, hsnapshot⟩ := renderRecipient_isSome hhtml (List.getElem_mem hcursor)
  rw [recipientStep, List.getElem?_eq_getElem hcursor]
  dsimp only
  rw [hsnapshot]
  exact sendRecipient_ok hworking hactive

end

theorem runJob_ok (hworking : Working jobId job rows s)
    (hhtml : bulkPersonalizedHtmlValidationError platform.toBulkHost job.html rows = some none)
    (hcursor : job.cursor < rows.length) (hdue : job.nextEnqueueAt.getD job.createdAt ≤ due) :
    Succeeding platform due (Ok fun _ => Advanced jobId job rows)
      (runJob platform jobId job rows true).run s := by
  refine succeeding_read rfl working_known hworking fun s₁ now s₂ hsucceeds hworking₂ => ?_
  have hnow : due ≤ now := hsucceeds.2
  have hnotEarly : ¬ now < job.nextEnqueueAt.getD job.createdAt := not_lt.mpr (hdue.trans hnow)
  rw [if_neg (by decide), if_neg hnotEarly]
  obtain ⟨⟨status, heq⟩, hactive⟩ := running_same job
  have hgoes := hactive hworking₂.active
  rw [heq] at hgoes ⊢
  exact recipientStep_ok hworking₂ hgoes hhtml hcursor

/-- The head of the queue is still the job. -/
def Queued (platform : BulkPlatform) (jobId : String) (job : BulkJob) (rows : List BulkRecipient)
    (s : BulkStore) : Prop :=
  BulkInv platform s ∧ (∃ others, s.queue = jobId :: others) ∧ Working jobId job rows s

theorem queued_ensureMembership {queue : List String} {id : String}
    (h : ∃ others, queue = jobId :: others) :
    ∃ others, ensureBulkQueueMembership queue id = jobId :: others := by
  obtain ⟨others, rfl⟩ := h
  rw [ensureBulkQueueMembership]
  split
  · exact ⟨others, rfl⟩
  · exact ⟨others ++ [id], rfl⟩

theorem queued_known : Knowledge platform (Queued platform jobId job rows) where
  others s s' hothers h := by
    refine ⟨h.1.others hothers, ?_, h.2.2.others hothers⟩
    cases hothers with
    | prepared => exact queued_ensureMembership h.2.1
    | requeued => exact queued_ensureMembership h.2.1
    | _ => exact h.2.1
  preparations _ preparations h :=
    ⟨h.1.of_eq rfl rfl rfl rfl rfl, h.2.1, h.2.2.with_preparations preparations⟩

section

variable (hqueued : Queued platform jobId job rows s) (hactor : job.actorUserId ≠ "")
  (hdue : job.nextEnqueueAt.getD job.createdAt ≤ due)
include hqueued hactor hdue

theorem takeJob_ok :
    Succeeding platform due (Ok fun _ => Advanced jobId job rows)
      (takeJob platform jobId rows (some job)).run s := by
  obtain ⟨hinv, -, hworking⟩ := hqueued
  obtain ⟨_, hrows, hjob⟩ := hinv.jobs jobId job hworking.stored
  obtain rfl := Option.some.inj (hworking.admitted.symm.trans hrows)
  obtain ⟨-, hcursor, -⟩ := hjob.active hworking.active
  rw [takeJob, if_neg (not_over hworking.active hcursor), authorizeJob, if_neg hactor]
  refine succeeding_read rfl working_known hworking fun s₁ canAccess s₂ hsucceeds hworking₂ => ?_
  have hcanAccess : canAccess = true := hsucceeds.2
  rw [hcanAccess]
  exact runJob_ok hworking₂ hjob.html hcursor hdue

/-- **A pass that nothing fails settles its row**, and the cursor goes on by one. -/
theorem bulkPass_advances :
    Succeeding platform due (Ok fun _ => Advanced jobId job rows) (bulkPass platform).run s := by
  refine succeeding_read rfl queued_known hqueued fun s₁ queue s₂ hsucceeds hqueued₂ => ?_
  obtain ⟨rfl, rfl⟩ := Outcome.answered hsucceeds.1
  obtain ⟨others, hqueue⟩ := hqueued₂.2.1
  rw [hqueue]
  refine succeeding_read rfl queued_known hqueued₂ fun s₃ stored s₄ hsucceeds₃ hqueued₄ => ?_
  obtain ⟨rfl, rfl⟩ := Outcome.answered hsucceeds₃.1
  have hstored := hqueued₄.2.2.stored
  refine succeeding_read rfl queued_known hqueued₄ fun s₅ answer s₆ hsucceeds₅ hqueued₆ => ?_
  obtain ⟨rfl, rfl⟩ := Outcome.answered hsucceeds₅.1
  obtain ⟨_, hrows, hjob⟩ := hqueued₆.1.jobs jobId job hqueued₆.2.2.stored
  obtain rfl := Option.some.inj (hqueued₆.2.2.admitted.symm.trans hrows)
  obtain ⟨hrowsStored, -, -⟩ := hjob.active hqueued₆.2.2.active
  rw [hstored, hrowsStored]
  exact takeJob_ok hqueued₆ hactor hdue

end

end Parts

/-! ### Runs -/

/-- Before any bulk job. -/
structure Initial (s : BulkStore) : Prop where
  queue : s.queue = []
  jobs : ∀ jobId, s.jobs jobId = none
  keys : (s.deliveries.map OutboundDelivery.idempotencyKey).Nodup

theorem Initial.inv (h : Initial s) : BulkInv platform s where
  keys := h.keys
  queue jobId hmem := by
    rw [h.queue] at hmem
    cases hmem
  jobs jobId job hjob := by
    rw [h.jobs jobId] at hjob
    cases hjob

/-- What the alarm and others do to the store. -/
abbrev AlarmRun (platform : BulkPlatform) :
    BulkStore → Solo Op (fun op => Option (Value op)) (Option Unit) BulkStore → Prop :=
  SoloReachable (exec platform) (fun _ => true) (Others platform) (· = (bulkPass platform).run)

abbrev AlarmTurn (platform : BulkPlatform) :
    Solo Op (fun op => Option (Value op)) (Option Unit) BulkStore →
      Solo Op (fun op => Option (Value op)) (Option Unit) BulkStore → Prop :=
  SoloTurn (exec platform) (fun _ => true) (Others platform) (· = (bulkPass platform).run)

theorem run_orderly {s₀ : BulkStore} (hinitial : Initial s₀)
    {solo : Solo Op (fun op => Option (Value op)) (Option Unit) BulkStore}
    (hrun : AlarmRun platform s₀ solo) :
    SoloOrderly (exec platform) (bulkRules platform) (fun _ _ => True) solo := by
  have hothers : ∀ s s', (bulkRules platform).Inv s → (bulkRules platform).Others s s' →
      (bulkRules platform).Inv s' := fun _ _ hinv hothers => BulkInv.others hinv hothers
  refine SoloReachable.keeps hothers (fun s p _ hp => ?_) hinitial.inv hrun
  subst hp
  exact bulkPass_keeps s

theorem turn_later {solo solo' : Solo Op (fun op => Option (Value op)) (Option Unit) BulkStore}
    (h : SoloOrderly (exec platform) (bulkRules platform) (fun _ _ => True) solo)
    (hturn : AlarmTurn platform solo solo') : Later solo.state solo'.state := by
  have hothers : ∀ s s', (bulkRules platform).Inv s → (bulkRules platform).Others s s' →
      (bulkRules platform).Inv s' := fun _ _ hinv hothers => BulkInv.others hinv hothers
  obtain ⟨-, hsame | hstep | hother⟩ :=
    SoloTurn.keeps hothers (fun s p _ hp => hp ▸ bulkPass_keeps s) hturn h
  · rw [hsame]
    exact .refl _
  · exact hstep
  · exact Later.others h.inv hother

/-- Keys that differ have one delivery at most. -/
theorem BulkInv.one_delivery (hinv : BulkInv platform s) (jobId : String) (i : ℕ) :
    ∀ d ∈ s.deliveries, ∀ d' ∈ s.deliveries, d.idempotencyKey = recipientKey jobId i →
      d'.idempotencyKey = recipientKey jobId i → d = d' :=
  fun _ hd _ hd' hkey hkey' => List.inj_on_of_nodup_map hinv.keys hd hd' (hkey.trans hkey'.symm)

/-- **Each row is sent once at most, and none is lost.** In every state of every run, wherever
passes stop and whatever fails:

* no turn takes a delivery away or changes a job that is over, and there is one delivery at most
  under the key of a row;
* the rows below the cursor of a job are split in those that failed, with an error each and without
  a delivery of their command, and those that have their delivery; a job that is done has no row
  left;
* a pass that takes up a job that is due, and whose calls all succeed, counts one row and goes on to
  the next. -/
theorem bulk_rows_sent_once {s₀ : BulkStore} (hinitial : Initial s₀)
    {solo : Solo Op (fun op => Option (Value op)) (Option Unit) BulkStore}
    (hrun : AlarmRun platform s₀ solo) :
    ((∀ solo', AlarmTurn platform solo solo' → Later solo.state solo'.state) ∧
      ∀ jobId i, ∀ d ∈ solo.state.deliveries, ∀ d' ∈ solo.state.deliveries,
        d.idempotencyKey = recipientKey jobId i → d'.idempotencyKey = recipientKey jobId i →
          d = d') ∧
    (∀ jobId job, solo.state.jobs jobId = some job →
      ∃ rows, solo.state.admitted jobId = some rows ∧ job.id = jobId ∧ job.total = rows.length ∧
        (∃ failedRows, Accounted platform solo.state.deliveries job rows failedRows) ∧
        (job.status = .done → job.cursor = rows.length)) ∧
    ∀ jobId others job rows, solo.state.queue = jobId :: others →
      solo.state.jobs jobId = some job → solo.state.admitted jobId = some rows →
      job.actorUserId ≠ "" →
        Succeeding platform (job.nextEnqueueAt.getD job.createdAt)
          (Ok fun _ => Advanced jobId job rows) (bulkPass platform).run solo.state := by
  have horderly := run_orderly hinitial hrun
  have hinv : BulkInv platform solo.state := horderly.inv
  refine ⟨⟨fun solo' hturn => turn_later horderly hturn, hinv.one_delivery⟩, ?_, ?_⟩
  · intro jobId job hjob
    obtain ⟨rows, hrows, hjobInv⟩ := hinv.jobs jobId job hjob
    exact ⟨rows, hrows, hjobInv.id, hjobInv.total, hjobInv.accounted, hjobInv.done⟩
  · intro jobId others job rows hqueue hjob hrows hactor
    obtain ⟨_, hjob', hactive⟩ := hinv.queue jobId (hqueue ▸ List.mem_cons_self)
    obtain rfl := Option.some.inj (hjob.symm.trans hjob')
    exact bulkPass_advances ⟨hinv, ⟨others, hqueue⟩, ⟨hjob, hactive, hrows⟩⟩ hactor le_rfl

/-! ### A sample -/

def samplePlatform : BulkPlatform where
  toBulkHost := sampleHost
  digest command := "sha256:" ++ command.subject
  digest_ne command := by simp
  safeAttachmentStorageFilename filename _ := filename

def sampleStore : BulkStore where
  queue := []
  jobs _ := none
  rows _ := none
  preparations _ := none
  deliveries := []
  admitted _ := none

def sampleJob : BulkJob where
  id := "job"
  status := .preparing
  actorUserId := "user"
  fromEmail := "ann@example.com"
  subject := "Hello {{name}}"
  html := some "<p>{{name}}</p>"
  text := none
  total := 1
  enqueued := 0
  failed := 0
  cursor := 0
  errors := []
  createdAt := 0
  updatedAt := 0
  nextEnqueueAt := none
  attachments := []

def sampleRows : List BulkRecipient := [[("email", "bob@example.com"), ("name", "Bob")]]

/-- The job, once it is prepared. -/
def sampleQueued : BulkJob :=
  { sampleJob with status := .queued, updatedAt := 1, nextEnqueueAt := some 101 }

theorem sample_admits : Admits samplePlatform "job" sampleJob sampleRows where
  id := rfl
  status := rfl
  total := rfl
  counters := ⟨rfl, rfl, rfl, rfl⟩
  nonempty := by decide
  html := by decide +kernel

def sampleAdmitted : BulkStore :=
  { sampleStore.setJob "job" sampleJob with
    rows := Function.update sampleStore.rows "job" (some sampleRows)
    admitted := Function.update sampleStore.admitted "job" (some sampleRows) }

theorem bulk_rows_sent_once_sample : ∃ s : BulkStore, s.jobs "job" = some sampleQueued ∧
    Succeeding samplePlatform 101 (Ok fun _ => Advanced "job" sampleQueued sampleRows)
      (bulkPass samplePlatform).run s := by
  have hadmitted : AlarmTurn samplePlatform ⟨sampleStore, none⟩ ⟨sampleAdmitted, none⟩ :=
    .others _ _ none (.admitted sampleStore "job" sampleJob sampleRows rfl sample_admits)
      fun _ h => by cases h
  have hprepared : AlarmTurn samplePlatform ⟨sampleAdmitted, none⟩ ⟨_, none⟩ :=
    .others _ _ none (.prepared sampleAdmitted "job" sampleJob [] 1 rfl rfl) fun _ h => by cases h
  have hinitial : Initial sampleStore := ⟨rfl, fun _ => rfl, List.nodup_nil⟩
  exact ⟨_, rfl, (bulk_rows_sent_once hinitial ((Relation.ReflTransGen.single hadmitted).tail
    hprepared)).2.2 "job" [] sampleQueued sampleRows rfl rfl rfl (by decide)⟩

end MailPortal.Bulk
