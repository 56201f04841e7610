import MailPortal.Bulk.Accounting

/-!
# Rows are Sent Once

A pass writes the job after the row is settled: after a look-up under the key of the row has found
its own delivery, or that there is none. What it knows then lasts, since others leave the job alone
and enqueue other commands. So the accounts are right in every record of the job, wherever passes
stop.

Main results:

* `bulkPass_keeps` : a pass keeps the invariant, whatever fails.
* `bulk_rows_sent_once` : the accounts of all jobs in every state of every run.
-/

namespace MailPortal.Bulk

open Concurrent

variable {platform : BulkPlatform} {s s' : BulkStore} {jobId : String} {job stored : BulkJob}
  {rows : List BulkRecipient} {row : BulkRecipient}
variable {op : Op} {β : Type} {delivery : OutboundDelivery} {settled : BulkJob}
variable {after : BulkStore} {Q : Option β → BulkStore → Prop}

/-! ### The rules of a pass -/

def bulkRules (platform : BulkPlatform) : Rules Op BulkStore where
  Inv := BulkInv platform
  Step := Later
  Others := Others platform
  waits _ := true

abbrev PassKeeps {α : Type} (platform : BulkPlatform) (Q : α → BulkStore → Prop)
    (p : Fallible Op Value α) (s : BulkStore) : Prop :=
  p.Keeps (exec platform) (bulkRules platform) Q s

/-- What others leave true, and what does not depend on preparations. -/
structure Knowledge (platform : BulkPlatform) (K : BulkStore → Prop) : Prop where
  others : Lasts (bulkRules platform) K
  preparations : ∀ s preparations, K s → K { s with preparations }

/-- The call changes preparations only. -/
def Local (op : Op) : Prop :=
  ∀ (platform : BulkPlatform) s answer s', exec platform op s answer s' →
    ∃ preparations, s' = { s with preparations }

theorem Outcome.state {α : Type} {Answers : α → Prop} {answer : Option α}
    (h : Outcome s after Answers answer s') : s' = s ∨ s' = after := by
  rcases h with ⟨-, h⟩ | ⟨_, -, -, h⟩
  · exact h
  · exact .inr h

theorem Outcome.answered {α : Type} {Answers : α → Prop} {value : α}
    (h : Outcome s after Answers (some value) s') : Answers value ∧ s' = after := by
  rcases h with ⟨h, -⟩ | ⟨_, h, hanswers, hafter⟩
  · cases h
  · rw [Option.some.inj h]
    exact ⟨hanswers, hafter⟩

/-- A call that writes neither the jobs nor the deliveries. -/
def Op.isLocal : Op → Bool
  | .enqueue .. | .putJob .. | .commitTerminal .. => false
  | _ => true

theorem local_of_isLocal (h : op.isLocal = true) : Local op := by
  intro platform s answer s' hexec
  have hsame : s' = s → ∃ preparations, s' = { s with preparations } := fun heq =>
    ⟨s.preparations, heq⟩
  cases op with
  | enqueue | putJob | commitTerminal => cases h
  | finishPreparation jobId cursor committedToEmailId =>
      rcases hexec.state with heq | heq
      · exact hsame heq
      · exact ⟨_, heq⟩
  | createPreparation job messageId =>
      obtain ⟨ids, -, houtcome⟩ := hexec
      rcases houtcome.state with heq | heq
      · exact hsame heq
      · exact ⟨_, heq⟩
  | _ => exact hsame (or_self_iff.mp (Outcome.state hexec))

section Calls

variable {K : BulkStore → Prop}

theorem inv_of_local (hlocal : Local op) (hinv : BulkInv platform s) {answer : Option (Value op)}
    (hexec : exec platform op s answer s') : BulkInv platform s' ∧ Later s s' := by
  obtain ⟨preparations, rfl⟩ := hlocal platform s answer s' hexec
  exact ⟨hinv.of_eq rfl rfl rfl rfl rfl, ⟨List.prefix_refl _, fun _ _ hjob _ => .inl hjob⟩⟩

section

variable (hlocal : op.isLocal = true) (hknown : Knowledge platform K) (hK : K s)
include hlocal hknown hK

/-- **The rule of a call** that changes preparations only. -/
theorem keeps_local {f : Value op → Throws Op Value β} (hthrown : ∀ s', K s' → Q none s')
    (hnext : ∀ s₁ value s₂, BulkInv platform s₁ → K s₁ → exec platform op s₁ (some value) s₂ →
      K s₂ → PassKeeps platform Q (f value).run s₂) :
    PassKeeps platform Q (perform op >>= f).run s := by
  have hop := local_of_isLocal hlocal
  refine keeps_perform hknown.others hK fun s₁ answer s₂ hinv hK₁ hexec => ?_
  obtain ⟨hinv₂, hlater⟩ := inv_of_local hop hinv hexec
  obtain ⟨preparations, rfl⟩ := hop platform s₁ _ s₂ hexec
  have hK₂ := hknown.preparations s₁ preparations hK₁
  refine ⟨hinv₂, hlater, fun _ => hthrown _ hK₂, fun value hvalue => ?_⟩
  subst hvalue
  exact hnext s₁ value _ hinv hK₁ hexec hK₂

/-- … whose failure is a value. -/
theorem keeps_local_attempt {Q : β → BulkStore → Prop} {f : Option (Value op) → Fallible Op Value β}
    (hnext : ∀ answer s₂, K s₂ → PassKeeps platform Q (f answer) s₂) :
    PassKeeps platform Q ((perform op).run >>= f) s := by
  have hop := local_of_isLocal hlocal
  refine keeps_attempt hknown.others hK fun s₁ answer s₂ hinv hK₁ hexec => ?_
  obtain ⟨hinv₂, hlater⟩ := inv_of_local hop hinv hexec
  obtain ⟨preparations, rfl⟩ := hop platform s₁ _ s₂ hexec
  exact ⟨hinv₂, hlater, hnext answer _ (hknown.preparations s₁ _ hK₁)⟩

/-- … with nothing after it. -/
theorem keeps_local_last {Q : Option (Value op) → BulkStore → Prop}
    (hQ : ∀ answer s', K s' → Q answer s') :
    PassKeeps platform Q (perform op : Throws Op Value (Value op)).run s :=
  keeps_local_attempt hlocal hknown hK fun answer s₂ hK₂ => hQ answer s₂ hK₂

end

end Calls

/-! ### What is known -/

theorem Working.with_preparations (h : Working jobId job rows s)
    (preparations : String → Option BulkRecipientPreparation) :
    Working jobId job rows { s with preparations } := ⟨h.stored, h.active, h.admitted⟩

theorem working_known : Knowledge platform (Working jobId job rows) where
  others _ _ hothers h := h.others hothers
  preparations _ preparations h := h.with_preparations preparations

theorem delivered_known (i : ℕ) : Knowledge platform fun s =>
    Working jobId stored rows s ∧ Delivered platform job rows i s where
  others := by
    intro s s' hothers h
    refine ⟨h.1.others hothers, ?_⟩
    obtain ⟨delivery, hmem, hsettles⟩ := h.2
    refine ⟨delivery, ?_, hsettles⟩
    cases hothers with
    | enqueued => exact List.mem_append_left _ hmem
    | _ => exact hmem
  preparations _ preparations h := ⟨h.1.with_preparations preparations, h.2⟩

/-- A job in another status is sent with the same commands. -/
def BulkJob.SameCommands (job stored : BulkJob) : Prop :=
  ∃ status, job = { stored with status }

theorem BulkJob.SameCommands.settles (h : job.SameCommands stored) {i : ℕ} :
    Settles platform job rows i delivery ↔ Settles platform stored rows i delivery := by
  obtain ⟨status, rfl⟩ := h
  exact Iff.rfl

theorem undelivered_known (hsame : job.SameCommands stored) (i : ℕ) :
    Knowledge platform fun s =>
      Working jobId stored rows s ∧ Undelivered platform job rows i s where
  others := by
    intro s s' hothers h
    refine ⟨h.1.others hothers, fun delivery hmem hsettles => ?_⟩
    have hnone : Undelivered platform stored rows i s := fun delivery hmem hsettles =>
      h.2 delivery hmem (hsame.settles.mpr hsettles)
    exact hnone.others h.1 hothers delivery hmem (hsame.settles.mp hsettles)
  preparations _ preparations h := ⟨h.1.with_preparations preparations, h.2⟩

/-- How a row was settled. -/
def Settled (platform : BulkPlatform) (jobId : String) (stored job settled : BulkJob)
    (rows : List BulkRecipient) (row : BulkRecipient) (s : BulkStore) : Prop :=
  (settled = job.countEnqueued ∧ Working jobId stored rows s ∧
    Delivered platform job rows job.cursor s) ∨
  (settled = job.countFailed row ∧ Working jobId stored rows s ∧
    Undelivered platform job rows job.cursor s)

theorem Settled.working (h : Settled platform jobId stored job settled rows row s) :
    Working jobId stored rows s := by
  rcases h with ⟨-, h, -⟩ | ⟨-, h, -⟩
  · exact h
  · exact h

theorem settled_known (hsame : job.SameCommands stored) :
    Knowledge platform (Settled platform jobId stored job settled rows row) where
  others s s' hothers h := by
    rcases h with ⟨heq, h⟩ | ⟨heq, h⟩
    · exact .inl ⟨heq, (delivered_known _).others s s' hothers h⟩
    · exact .inr ⟨heq, (undelivered_known hsame _).others s s' hothers h⟩
  preparations s preparations h := by
    rcases h with ⟨heq, h⟩ | ⟨heq, h⟩
    · exact .inl ⟨heq, h.1.with_preparations preparations, h.2⟩
    · exact .inr ⟨heq, h.1.with_preparations preparations, h.2⟩

/-! ### What a look-up tells -/

theorem delivery_eq_some {key : String} (h : s.delivery key = some delivery) :
    delivery ∈ s.deliveries ∧ delivery.idempotencyKey = key := by
  rw [BulkStore.delivery] at h
  exact ⟨List.mem_of_find?_eq_some h, by simpa using List.find?_some h⟩

theorem delivery_unique (hinv : BulkInv platform s) (hmem : delivery ∈ s.deliveries) :
    s.delivery delivery.idempotencyKey = some delivery := by
  cases hfound : s.delivery delivery.idempotencyKey with
  | none => exact absurd (decide_eq_true rfl) (List.find?_eq_none.mp hfound delivery hmem)
  | some found =>
      obtain ⟨hfoundMem, hkey⟩ := delivery_eq_some hfound
      rw [List.inj_on_of_nodup_map hinv.keys hfoundMem hmem hkey]

/-- A delivery of the same command is the row's own. -/
theorem delivered_of_exact {key fingerprint : String} (hkey : key = recipientKey job.id job.cursor)
    (hrow : rows[job.cursor]? = some row)
    (hfingerprint : recipientFingerprint platform job row = some fingerprint)
    (h : classifyOutboundReplay (s.delivery key) fingerprint = .exact) :
    Delivered platform job rows job.cursor s := by
  cases hfound : s.delivery key with
  | none =>
      rw [hfound] at h
      cases h
  | some delivery =>
      rw [hfound, classifyOutboundReplay] at h
      split at h
      · cases h
      · split at h
        · cases h
        · rename_i hsame
          have hsame : delivery.commandFingerprint = some fingerprint := by simpa using hsame
          obtain ⟨hmem, hmine⟩ := delivery_eq_some hfound
          exact ⟨delivery, hmem, hmine.trans hkey, row, hrow, hsame.trans hfingerprint.symm, by
            rw [hsame]; rfl⟩

/-- Any other answer means that the row has none. -/
theorem undelivered_of_not_exact (hinv : BulkInv platform s) {fingerprint : String}
    (hne : fingerprint ≠ "") (hrow : rows[job.cursor]? = some row)
    (hfingerprint : recipientFingerprint platform job row = some fingerprint)
    (h : classifyOutboundReplay (s.delivery (recipientKey job.id job.cursor)) fingerprint ≠
      .exact) :
    Undelivered platform job rows job.cursor s := by
  rintro delivery hmem ⟨hkey, row', hrow', hsame, -⟩
  obtain rfl := Option.some.inj (hrow.symm.trans hrow')
  rw [hfingerprint] at hsame
  refine h ?_
  rw [← hkey, delivery_unique hinv hmem, classifyOutboundReplay, hsame]
  simp [truthy, hne]

/-! ### The enqueue -/

/-- The transaction of an enqueue: it adds a delivery under a free key, or leaves the deliveries as
they are; and it may drop a preparation. -/
theorem enqueue_cases (delivery : OutboundDelivery) (fingerprint : String)
    (preparation : Option BulkRecipientPreparation) (s : BulkStore) :
    ∃ preparations,
      (s.delivery delivery.idempotencyKey = none ∧
        enqueue delivery fingerprint preparation s = (.enqueued delivery.emailId false,
          { s with preparations, deliveries := s.deliveries ++ [delivery] })) ∨
      (∃ existing reason, s.delivery delivery.idempotencyKey = some existing ∧
        enqueue delivery fingerprint preparation s = (.conflict reason, { s with preparations })) ∨
      ∃ existing, s.delivery delivery.idempotencyKey = some existing ∧
        classifyOutboundReplay (some existing) fingerprint = .exact ∧
        enqueue delivery fingerprint preparation s =
          (.enqueued existing.emailId true, { s with preparations }) := by
  rw [enqueue]
  cases hfound : s.delivery delivery.idempotencyKey with
  | none =>
      cases preparation with
      | none => exact ⟨_, .inl ⟨rfl, rfl⟩⟩
      | some preparation => exact ⟨_, .inl ⟨rfl, rfl⟩⟩
  | some existing =>
      dsimp only
      cases hstatus : classifyOutboundReplay (some existing) fingerprint with
      | none =>
          rw [classifyOutboundReplay] at hstatus
          split at hstatus
          · cases hstatus
          · split at hstatus <;> cases hstatus
      | conflict reason => exact ⟨_, .inr (.inl ⟨existing, reason, rfl, rfl⟩)⟩
      | exact =>
          cases preparation with
          | none => exact ⟨_, .inr (.inr ⟨existing, rfl, hstatus, rfl⟩)⟩
          | some preparation => exact ⟨_, .inr (.inr ⟨existing, rfl, hstatus, rfl⟩)⟩

section

variable (hinv : BulkInv platform s) (hworking : Working jobId stored rows s)
include hinv hworking

/-- The delivery of a row of this job is of no row that was counted. -/
theorem not_settles_counted (hkey : delivery.idempotencyKey = recipientKey stored.id stored.cursor)
    (id : String) (other : BulkJob) (otherRows : List BulkRecipient)
    (hother : s.jobs id = some other) (i : ℕ) (hi : i < other.cursor) :
    ¬ Settles platform other otherRows i delivery := by
  rintro ⟨hsame, -⟩
  obtain ⟨hid, rfl⟩ := recipientKey_inj (hsame.symm.trans hkey)
  obtain ⟨_, -, hstored⟩ := hinv.jobs jobId stored hworking.stored
  obtain ⟨_, -, hotherInv⟩ := hinv.jobs id other hother
  rw [← hotherInv.id, hid, hstored.id, hworking.stored] at hother
  rw [Option.some.inj hother] at hi
  exact absurd hi (lt_irrefl _)

/-- **The enqueue of a row** keeps the invariant, and when it answers the row has its delivery. -/
theorem enqueue_keeps (hsame : job.SameCommands stored) (hrow : rows[job.cursor]? = some row)
    {fingerprint : String} (hfingerprint : recipientFingerprint platform job row = some fingerprint)
    (hkey : delivery.idempotencyKey = recipientKey job.id job.cursor)
    (hcommand : delivery.commandFingerprint = some fingerprint)
    (preparation : Option BulkRecipientPreparation) :
    BulkInv platform (enqueue delivery fingerprint preparation s).2 ∧
      Later s (enqueue delivery fingerprint preparation s).2 ∧
      Working jobId stored rows (enqueue delivery fingerprint preparation s).2 ∧
      ∀ emailId replayed,
        (enqueue delivery fingerprint preparation s).1 = .enqueued emailId replayed →
          Delivered platform job rows job.cursor
            (enqueue delivery fingerprint preparation s).2 := by
  have hlocal : ∀ preparations, BulkInv platform { s with preparations } ∧
      Later s { s with preparations } ∧ Working jobId stored rows { s with preparations } :=
    fun preparations => ⟨hinv.of_eq rfl rfl rfl rfl rfl,
      ⟨List.prefix_refl _, fun _ _ hjob _ => .inl hjob⟩, hworking.with_preparations preparations⟩
  obtain ⟨preparations, ⟨hfree, heq⟩ | ⟨existing, reason, -, heq⟩ |
    ⟨existing, hexisting, hexact, heq⟩⟩ := enqueue_cases delivery fingerprint preparation s
  · rw [heq]
    have hcursor : delivery.idempotencyKey = recipientKey stored.id stored.cursor := by
      obtain ⟨status, rfl⟩ := hsame
      exact hkey
    have hdelivered := hinv.deliver hfree fun id other otherRows hother _ i hi =>
      not_settles_counted hinv hworking hcursor id other otherRows hother i hi
    refine ⟨hdelivered.of_eq rfl rfl rfl rfl rfl,
      ⟨List.prefix_append _ _, fun _ _ hjob _ => .inl hjob⟩,
      ⟨hworking.stored, hworking.active, hworking.admitted⟩, fun _ _ _ => ?_⟩
    exact ⟨delivery, List.mem_append_right _ (List.mem_singleton_self _), hkey, row, hrow,
      hcommand.trans hfingerprint.symm, by rw [hcommand]; rfl⟩
  · rw [heq]
    obtain ⟨hinv', hlater, hworking'⟩ := hlocal preparations
    exact ⟨hinv', hlater, hworking', fun _ _ hanswer => by cases hanswer⟩
  · rw [heq]
    obtain ⟨hinv', hlater, hworking'⟩ := hlocal preparations
    refine ⟨hinv', hlater, hworking', fun _ _ _ => ?_⟩
    exact delivered_of_exact hkey hrow hfingerprint (by rw [← hexisting] at hexact; exact hexact)

end

/-! ### Parts of a pass -/

/-- What is known when a program ends, and when it returns. -/
def Returns {α : Type} (K : BulkStore → Prop) (P : α → BulkStore → Prop) (o : Option α)
    (s : BulkStore) : Prop := K s ∧ ∀ a, o = some a → P a s

section Returns

variable {α : Type} {K : BulkStore → Prop} {P : α → BulkStore → Prop}

theorem returns_none (s : BulkStore) (hK : K s) : Returns K P none s := ⟨hK, fun _ h => by cases h⟩

theorem returns_some {a : α} (hK : K s) (h : P a s) : Returns K P (some a) s :=
  ⟨hK, fun _ heq => Option.some.inj heq ▸ h⟩

/-- **The rule of sequence** for programs that return. -/
theorem keeps_returns {p : Throws Op Value α} {f : α → Throws Op Value β}
    (hthrown : ∀ s', K s' → Q none s') (h : PassKeeps platform (Returns K P) p.run s)
    (hnext : ∀ a s', P a s' → PassKeeps platform Q (f a).run s') :
    PassKeeps platform Q (p >>= f).run s :=
  Prog.Keeps.bindThrowing (h.mono fun _ s' hreturns => ⟨fun _ => hthrown s' hreturns.1, fun a ha =>
    hnext a s' (hreturns.2 a ha)⟩)

end Returns

section Parts

variable {fingerprint messageId : String} {snapshot : OutboundSnapshot}

section

variable {K : BulkStore → Prop} (hknown : Knowledge platform K)
include hknown

theorem copyAttachments_keeps (copies : List (BulkAttachment × String)) (hK : K s) :
    PassKeeps platform (Returns K fun _ => K) (copyAttachments copies).run s := by
  induction copies generalizing s with
  | nil => exact returns_some hK hK
  | cons copy copies ih =>
      refine keeps_local rfl hknown hK returns_none fun _ source s₂ _ _ _ hK₂ => ?_
      split
      · exact keeps_local rfl hknown hK₂ returns_none fun _ _ _ _ _ _ hK₃ => ih hK₃
      · exact returns_some hK₂ hK₂

theorem prepareCopies_keeps (job : BulkJob) (preparation : Option BulkRecipientPreparation)
    (hK : K s) :
    PassKeeps platform (Returns K fun _ => K) (prepareCopies job preparation).run s := by
  cases preparation with
  | none => exact returns_some hK hK
  | some preparation =>
      exact keeps_local rfl hknown hK returns_none fun _ _ _ _ _ _ hK₂ =>
        copyAttachments_keeps hknown _ hK₂

theorem deleteOrphans_keeps (emailId : String) (keys : List String) (hK : K s) :
    PassKeeps platform (Returns K fun _ => K) (deleteOrphans emailId keys).run s := by
  cases keys with
  | nil => exact returns_some hK hK
  | cons key keys =>
      refine Prog.Keeps.bindLift (keeps_local_last rfl hknown hK fun deleted s₂ hK₂ => ?_)
      cases deleted with
      | some _ => exact returns_some hK₂ hK₂
      | none => exact keeps_local_last rfl hknown hK₂ fun _ _ hK₃ => ⟨hK₃, fun _ _ => hK₃⟩

end

/-- After an enqueue without an error the row has its delivery. -/
def Attempted (platform : BulkPlatform) (jobId : String) (stored job : BulkJob)
    (rows : List BulkRecipient) (error : Option RecipientError) (s : BulkStore) : Prop :=
  Working jobId stored rows s ∧ (error = none → Delivered platform job rows job.cursor s)

theorem attempted_error (hworking : Working jobId stored rows s) (error : RecipientError) :
    Attempted platform jobId stored job rows (some error) s :=
  ⟨hworking, fun h => by cases h⟩

section

variable (hworking : Working jobId stored rows s) (hsame : job.SameCommands stored)
  (hrow : rows[job.cursor]? = some row)
  (hfingerprint : recipientFingerprint platform job row = some fingerprint)
include hworking hsame hrow hfingerprint

theorem enqueueOutboundInternal_keeps
    (hkey : delivery.idempotencyKey = recipientKey job.id job.cursor)
    (hcommand : delivery.commandFingerprint = some fingerprint)
    (preparation : Option BulkRecipientPreparation) :
    PassKeeps platform
      (Returns (Working jobId stored rows) (Attempted platform jobId stored job rows))
      (enqueueOutboundInternal platform delivery fingerprint preparation).run s := by
  have hworks : Knowledge platform (Working jobId stored rows) := working_known
  rw [enqueueOutboundInternal]
  split
  · exact returns_some hworking (attempted_error hworking _)
  · refine keeps_perform hworks.others hworking fun s₁ answer s₂ hinv hworking₁ hexec => ?_
    obtain ⟨hinv₂, hlater, hworking₂, hdelivered⟩ :=
      enqueue_keeps hinv hworking₁ hsame hrow hfingerprint hkey hcommand preparation
    have hstep : BulkInv platform s₂ ∧ Later s₁ s₂ ∧ Working jobId stored rows s₂ := by
      rcases Outcome.state hexec with rfl | rfl
      · exact ⟨hinv, .refl _, hworking₁⟩
      · exact ⟨hinv₂, hlater, hworking₂⟩
    refine ⟨hstep.1, hstep.2.1, fun _ => returns_none _ hstep.2.2, fun value hvalue => ?_⟩
    subst hvalue
    obtain ⟨hanswer, rfl⟩ := Outcome.answered hexec
    cases hvalue : value with
    | conflict reason => exact returns_none _ hworking₂
    | enqueued emailId replayed =>
        have hK := And.intro hworking₂ (hdelivered emailId replayed (hanswer.symm.trans hvalue))
        have hknown : Knowledge platform fun s =>
            Working jobId stored rows s ∧ Delivered platform job rows job.cursor s :=
          delivered_known job.cursor
        refine Prog.Keeps.bindLift (keeps_local_last rfl hknown hK fun _ s₃ hK₃ => ?_)
        split
        · exact keeps_returns (fun s' hK' => returns_none s' hK'.1)
            (deleteOrphans_keeps hknown _ _ hK₃) fun _ _ hK₄ =>
              returns_some hK₄.1 ⟨hK₄.1, fun _ => hK₄.2⟩
        · exact returns_some hK₃.1 ⟨hK₃.1, fun _ => hK₃.2⟩

theorem enqueuePrepared_keeps (preparation : Option BulkRecipientPreparation) :
    PassKeeps platform
      (Returns (Working jobId stored rows) (Attempted platform jobId stored job rows))
      (enqueuePrepared platform job snapshot fingerprint messageId preparation).run s := by
  refine keeps_returns returns_none (prepareCopies_keeps working_known job preparation hworking)
    fun copied s₂ hworking₂ => ?_
  cases copied with
  | some error => exact returns_some hworking₂ (attempted_error hworking₂ error)
  | none =>
      exact enqueueOutboundInternal_keeps hworking₂ hsame hrow hfingerprint rfl rfl preparation

/-- An attempt that ends well has made the delivery. -/
theorem attemptRecipient_keeps :
    PassKeeps platform (fun attempt s' => Working jobId stored rows s' ∧
        (attempt.outcome = some none → Delivered platform job rows job.cursor s'))
      (attemptRecipient platform job snapshot fingerprint) s := by
  refine keeps_local_attempt rfl working_known hworking fun generated s₂ hworking₂ => ?_
  cases generated with
  | none => exact ⟨hworking₂, fun h => by cases h⟩
  | some generated =>
      refine keeps_local_attempt rfl working_known hworking₂ fun prepared s₃ hworking₃ => ?_
      cases prepared with
      | none => exact ⟨hworking₃, fun h => by cases h⟩
      | some preparation =>
          refine Prog.Keeps.bind ((enqueuePrepared_keeps hworking₃ hsame hrow hfingerprint
            preparation).mono fun outcome s₄ hreturns => ?_)
          exact ⟨hreturns.1, fun hnone => (hreturns.2 none hnone).2 rfl⟩

end

theorem finishAttempt_keeps {K : BulkStore → Prop} (hknown : Knowledge platform K)
    (attempt : Attempt) (committedToEmailId : Option String) (hK : K s) :
    PassKeeps platform (Returns K fun _ => K) (finishAttempt attempt committedToEmailId).run s := by
  rw [finishAttempt]
  split
  · exact keeps_local_last rfl hknown hK fun _ _ hK₂ => ⟨hK₂, fun _ _ => hK₂⟩
  · exact returns_some hK hK

theorem countFailed_keeps (hworking : Working jobId stored rows s)
    (hsame : job.SameCommands stored) (hundelivered : Undelivered platform job rows job.cursor s)
    (attempt : Attempt) :
    PassKeeps platform (Returns (Working jobId stored rows)
        fun settled => Settled platform jobId stored job settled rows row)
      (finishAttempt attempt none >>= fun _ => pure (job.countFailed row)).run s :=
  keeps_returns (fun s' hK' => returns_none s' hK'.1)
    (finishAttempt_keeps (undelivered_known hsame job.cursor) attempt _ ⟨hworking, hundelivered⟩)
    fun _ _ hK => returns_some hK.1 (.inr ⟨rfl, hK⟩)

section

variable (hworking : Working jobId stored rows s) (hsame : job.SameCommands stored)
  (hrow : rows[job.cursor]? = some row)
  (hfingerprint : recipientFingerprint platform job row = some fingerprint) (hne : fingerprint ≠ "")
include hworking hsame hrow hfingerprint hne

/-- **A row is counted as what it is** after the look-up. -/
theorem reconcileRecipient_keeps (attempt : Attempt) :
    PassKeeps platform (Returns (Working jobId stored rows)
        fun settled => Settled platform jobId stored job settled rows row)
      (reconcileRecipient job row fingerprint attempt).run s := by
  refine keeps_local rfl working_known hworking returns_none
    fun s₁ authoritative s₂ hinv hworking₁ hexec hworking₂ => ?_
  obtain ⟨rfl, rfl⟩ := Outcome.answered hexec
  dsimp only
  cases hstatus : (planBulkEnqueueReconciliation (s₂.delivery (recipientKey job.id job.cursor))
      attempt.messageId fingerprint).status with
  | exact =>
      have hdelivered : Delivered platform job rows job.cursor s₂ :=
        delivered_of_exact rfl hrow hfingerprint hstatus
      refine keeps_returns (fun s' hK' => returns_none s' hK'.1)
        (finishAttempt_keeps (delivered_known job.cursor) attempt _ ⟨hworking₂, hdelivered⟩)
        fun _ s₃ hK₃ => ?_
      exact keeps_local rfl (delivered_known job.cursor) hK₃ (fun s' hK' => returns_none s' hK'.1)
        fun _ _ s₄ _ _ _ hK₄ => returns_some hK₄.1 (.inl ⟨rfl, hK₄⟩)
  | none =>
      have hundelivered : Undelivered platform job rows job.cursor s₂ :=
        undelivered_of_not_exact hinv hne hrow hfingerprint fun h => by cases hstatus.symm.trans h
      cases herror : attempt.outcome.join with
      | none => exact returns_none _ hworking₂
      | some error => exact countFailed_keeps hworking₂ hsame hundelivered attempt
  | conflict reason =>
      have hundelivered : Undelivered platform job rows job.cursor s₂ :=
        undelivered_of_not_exact hinv hne hrow hfingerprint fun h => by cases hstatus.symm.trans h
      exact countFailed_keeps hworking₂ hsame hundelivered attempt

/-- What the look-up of a pass has found. -/
theorem settleRow_keeps :
    PassKeeps platform (Returns (Working jobId stored rows)
        fun settled => Settled platform jobId stored job settled rows row)
      (settleRow platform job row snapshot fingerprint
        (s.delivery (recipientKey job.id job.cursor))).run s := by
  cases hfound : s.delivery (recipientKey job.id job.cursor) with
  | none =>
      refine Prog.Keeps.bindLift ((attemptRecipient_keeps hworking hsame hrow hfingerprint).mono
        fun attempt s₂ hattempt => ?_)
      split
      · rename_i houtcome
        exact returns_some hattempt.1 (.inl ⟨rfl, hattempt.1, hattempt.2 houtcome⟩)
      · exact reconcileRecipient_keeps hattempt.1 hsame hrow hfingerprint hne attempt
  | some authoritative =>
      rw [settleRow]
      split
      · rename_i hexact
        have hdelivered : Delivered platform job rows job.cursor s :=
          delivered_of_exact rfl hrow hfingerprint (hfound ▸ hexact)
        exact keeps_local rfl (delivered_known job.cursor) ⟨hworking, hdelivered⟩
          (fun s' hK' => returns_none s' hK'.1) fun _ _ s₂ _ _ _ hK₂ =>
            returns_some hK₂.1 (.inl ⟨rfl, hK₂⟩)
      · exact keeps_local rfl working_known hworking returns_none fun _ _ s₂ _ _ _ hworking₂ =>
          reconcileRecipient_keeps hworking₂ hsame hrow hfingerprint hne _

end

end Parts

/-! ### Writes of the job -/

theorem rowErrors_eq (h : JobInv platform s jobId job rows) (hactive : job.active = true)
    {failedRows : List ℕ} (haccounted : Accounted platform s.deliveries job rows failedRows) :
    job.errors = rowErrors rows failedRows := by
  obtain ⟨-, -, hlength⟩ := h.active hactive
  refine (haccounted.errors.eq_of_length ?_).symm
  rw [rowErrors, List.length_map, ← haccounted.failed, hlength]

section

variable (h : JobInv platform s jobId stored rows) (hactive : stored.active = true)
  (hsame : job.SameCommands stored) (hrow : rows[job.cursor]? = some row)
  (hsettled : Settled platform jobId stored job settled rows row s) (now : ℤ) (random : ℚ)
include h hactive hsame hrow hsettled now random

/-- **The accounts after a row is settled.** -/
theorem accounted_settled (status : BulkJobStatus) :
    ∃ failedRows, Accounted platform s.deliveries
        { settled.advanced now random with status } rows failedRows ∧
      settled.errors = rowErrors rows failedRows := by
  obtain ⟨failedRows, haccounted⟩ := h.accounted
  have herrors := rowErrors_eq h hactive haccounted
  obtain ⟨oldStatus, rfl⟩ := hsame
  have hlength := (List.getElem?_eq_some_iff.mp hrow).1
  rcases hsettled with ⟨rfl, -, hdelivered⟩ | ⟨rfl, -, hundelivered⟩
  · refine ⟨failedRows, ⟨haccounted.sorted, ?_, haccounted.failed, ?_, hlength, ?_, ?_, ?_⟩,
      herrors⟩
    · exact fun i hi => (haccounted.below i hi).trans (Nat.lt_succ_self _)
    · have hcounted := haccounted.counted
      simp only [BulkJob.advanced, BulkJob.countEnqueued]
      omega
    · exact haccounted.errors
    · intro i hi hnot
      rcases Nat.lt_succ_iff_lt_or_eq.mp hi with hlt | rfl
      · exact haccounted.delivered i hlt hnot
      · exact hdelivered
    · exact haccounted.undelivered
  · have hrowErrors : rowErrors rows (failedRows ++ [stored.cursor]) =
        stored.errors ++ [rowError row] := by
      rw [herrors, rowErrors, List.map_append, List.map_singleton, hrow]
      rfl
    refine ⟨failedRows ++ [stored.cursor], ⟨?_, ?_, ?_, ?_, hlength, ?_, ?_, ?_⟩, hrowErrors.symm⟩
    · refine List.pairwise_append.mpr ⟨haccounted.sorted, List.pairwise_singleton .., ?_⟩
      intro i hi j hj
      exact List.mem_singleton.mp hj ▸ haccounted.below i hi
    · intro i hi
      rcases List.mem_append.mp hi with hi | hi
      · exact (haccounted.below i hi).trans (Nat.lt_succ_self _)
      · exact List.mem_singleton.mp hi ▸ Nat.lt_succ_self _
    · rw [List.length_append, List.length_singleton, ← haccounted.failed]
      rfl
    · have hcounted := haccounted.counted
      simp only [BulkJob.advanced, BulkJob.countFailed]
      omega
    · rw [hrowErrors]
      exact List.prefix_refl _
    · intro i hi hnot
      rcases Nat.lt_succ_iff_lt_or_eq.mp hi with hlt | rfl
      · exact haccounted.delivered i hlt fun hmem => hnot (List.mem_append_left _ hmem)
      · exact absurd (List.mem_append_right _ (List.mem_singleton_self _)) hnot
    · intro i hi
      rcases List.mem_append.mp hi with hi | hi
      · exact haccounted.undelivered i hi
      · exact List.mem_singleton.mp hi ▸ hundelivered

/-- A job that is written after a row was settled. -/
theorem jobInv_settled {status : BulkJobStatus} (hdeliveries : s'.deliveries = s.deliveries)
    (hstatus : (status = .queued ∨ status = .running) ∧ s'.rows jobId = s.rows jobId ∧
        (settled.advanced now random).cursor < rows.length ∨
      status = .done ∧ rows.length ≤ (settled.advanced now random).cursor) :
    JobInv platform s' jobId { settled.advanced now random with status } rows := by
  obtain ⟨failedRows, haccounted, herrors⟩ :=
    accounted_settled h hactive hsame hrow hsettled now random status
  have hfields : settled.id = stored.id ∧ settled.total = stored.total ∧
      settled.html = stored.html := by
    obtain ⟨_, rfl⟩ := hsame
    rcases hsettled with ⟨rfl, -⟩ | ⟨rfl, -⟩ <;> exact ⟨rfl, rfl, rfl⟩
  refine ⟨hfields.1.trans h.id, hfields.2.1.trans h.total, h.nonempty, ?_, ?_, ?_, ?_, ?_⟩
  · have hhtml := h.html
    rw [← hfields.2.2] at hhtml
    exact hhtml
  · exact ⟨failedRows, haccounted.mono (fun _ hmem => hdeliveries ▸ hmem) fun _ hmem =>
      .inl (hdeliveries ▸ hmem)⟩
  · rintro rfl
    rcases hstatus with ⟨hstatus | hstatus, -⟩ | ⟨hstatus, -⟩ <;> cases hstatus
  · intro hnew
    rcases hstatus with ⟨-, hrows, hcursor⟩ | ⟨rfl, -⟩
    · refine ⟨hrows.trans (h.active hactive).1, hcursor, ?_⟩
      have hfailed : settled.failed = failedRows.length := haccounted.failed
      rw [BulkJob.advanced, herrors, rowErrors, List.length_map, hfailed]
    · cases hnew
  · rintro rfl
    rcases hstatus with ⟨hstatus | hstatus, -⟩ | ⟨-, hcursor⟩
    · cases hstatus
    · cases hstatus
    · exact le_antisymm haccounted.within hcursor

end

/-- A job that is cancelled keeps its accounts. -/
theorem jobInv_cancelled (h : JobInv platform s jobId job rows) (now : ℤ)
    (hdeliveries : s'.deliveries = s.deliveries) :
    JobInv platform s' jobId (job.cancelled now) rows where
  id := h.id
  total := h.total
  nonempty := h.nonempty
  html := h.html
  accounted := by
    obtain ⟨failedRows, haccounted⟩ := h.accounted
    have hsame : Accounted platform s.deliveries (job.cancelled now) rows failedRows :=
      { haccounted with errors := haccounted.errors.trans (List.prefix_append _ _) }
    exact ⟨failedRows, hsame.mono (fun _ hmem => hdeliveries ▸ hmem) fun _ hmem =>
      .inl (hdeliveries ▸ hmem)⟩
  preparing hpreparing := by cases hpreparing
  active hactive := by cases hactive
  done hdone := by cases hdone

theorem later_of_working (hworking : Working jobId job rows s)
    (hjobs : ∀ id, id ≠ jobId → s'.jobs id = s.jobs id)
    (hdeliveries : s'.deliveries = s.deliveries) :
    Later s s' where
  deliveries := hdeliveries ▸ List.prefix_refl _
  terminal id job' hjob' hterminal := by
    by_cases hmine : id = jobId
    · subst hmine
      rw [← Option.some.inj (hworking.stored.symm.trans hjob')] at hterminal
      have hactive := active_of_terminal hterminal
      rw [hworking.active] at hactive
      cases hactive
    · exact .inl ((hjobs id hmine).trans hjob')

theorem jobs_commitTerminal (s : BulkStore) (jobId : String) (job : BulkJob) :
    (s.commitTerminal jobId (some job)).jobs = Function.update s.jobs jobId (some job) := rfl

section

variable (hinv : BulkInv platform s) (hworking : Working jobId stored rows s)
include hinv hworking

/-- The transaction that ends a job. -/
theorem inv_commitTerminal
    (hjob : JobInv platform (s.commitTerminal jobId (some job)) jobId job rows) :
    BulkInv platform (s.commitTerminal jobId (some job)) ∧
      Later s (s.commitTerminal jobId (some job)) := by
  refine ⟨?_, later_of_working hworking (fun id hne => Function.update_of_ne hne _ _) rfl⟩
  refine hinv.set (jobs_commitTerminal s jobId job) (fun _ hne => Function.update_of_ne hne _ _)
    (fun _ _ => rfl) rfl (fun id hid _ => (List.mem_filter.mp hid).1) (fun hmem => ?_) ?_
  · exact absurd rfl (of_decide_eq_true (List.mem_filter.mp hmem).2)
  · rintro _ ⟨rfl⟩
    exact ⟨rows, hworking.admitted, hjob⟩

/-- The write that goes on to the next row. -/
theorem inv_putJob (hactive : job.active = true)
    (hjob : JobInv platform (s.setJob jobId job) jobId job rows) :
    BulkInv platform (s.setJob jobId job) ∧ Later s (s.setJob jobId job) := by
  refine ⟨?_, later_of_working hworking (fun id hne => Function.update_of_ne hne _ _) rfl⟩
  refine hinv.set rfl (fun _ _ => rfl) (fun _ _ => rfl) rfl (fun _ hid _ => hid)
    (fun _ => ⟨job, rfl, hactive⟩) ?_
  rintro _ ⟨rfl⟩
  exact ⟨rows, hworking.admitted, hjob⟩

end

/-! ### The pass -/

theorem true_known : Knowledge platform fun _ => True :=
  ⟨fun _ _ _ _ => trivial, fun _ _ _ => trivial⟩

/-- The end of a job, when the record that is written is right. -/
theorem endJob_keeps {K : BulkStore → Prop} (hknown : Knowledge platform K) (hK : K s)
    (hwrite : ∀ s₁, BulkInv platform s₁ → K s₁ → ∃ stored rows, Working jobId stored rows s₁ ∧
      JobInv platform (s₁.commitTerminal jobId (some job)) jobId job rows) :
    PassKeeps platform (fun _ _ => True) (endJob jobId (some job)).run s := by
  refine keeps_perform hknown.others hK fun s₁ answer s₂ hinv hK₁ hexec => ?_
  obtain ⟨stored, rows, hworking, hjob⟩ := hwrite s₁ hinv hK₁
  have hstep : BulkInv platform s₂ ∧ Later s₁ s₂ := by
    rcases Outcome.state hexec with rfl | rfl
    · exact ⟨hinv, .refl _⟩
    · exact inv_commitTerminal hinv hworking hjob
  refine ⟨hstep.1, hstep.2, fun _ => trivial, fun remainingJobs _ => ?_⟩
  refine keeps_local rfl true_known trivial (fun _ _ => trivial) fun _ _ s₃ _ _ _ _ => ?_
  split
  · refine keeps_local rfl true_known trivial (fun _ _ => trivial) fun _ _ _ _ _ _ _ => ?_
    exact keeps_local_last rfl true_known trivial fun _ _ _ => trivial
  · trivial

theorem advance_keeps (hsame : job.SameCommands stored) (hactive : job.active = true)
    (hrow : rows[job.cursor]? = some row)
    (hsettled : Settled platform jobId stored job settled rows row s) :
    PassKeeps platform (fun _ _ => True) (advance jobId rows settled).run s := by
  have hknown : Knowledge platform (Settled platform jobId stored job settled rows row) :=
    settled_known hsame
  refine keeps_local rfl hknown hsettled (fun _ _ => trivial) fun _ now s₂ _ _ _ hsettled₂ => ?_
  refine keeps_local rfl hknown hsettled₂ (fun _ _ => trivial) fun _ random s₃ _ _ _ hsettled₃ => ?_
  split
  · rename_i hcursor
    refine endJob_keeps hknown hsettled₃ fun s₄ hinv hsettled₄ => ?_
    have hworking := hsettled₄.working
    obtain ⟨_, hrows, hjobInv⟩ := hinv.jobs jobId stored hworking.stored
    obtain rfl := Option.some.inj (hworking.admitted.symm.trans hrows)
    exact ⟨stored, rows, hworking, jobInv_settled hjobInv hworking.active hsame hrow hsettled₄ now
      random rfl (.inr ⟨rfl, hcursor⟩)⟩
  · rename_i hcursor
    refine keeps_perform hknown.others hsettled₃ fun s₄ answer s₅ hinv hsettled₄ hexec => ?_
    have hworking := hsettled₄.working
    obtain ⟨_, hrows, hjobInv⟩ := hinv.jobs jobId stored hworking.stored
    obtain rfl := Option.some.inj (hworking.admitted.symm.trans hrows)
    have hstatus : settled.status = job.status := by
      rcases hsettled₄ with ⟨rfl, -⟩ | ⟨rfl, -⟩ <;> rfl
    have hrunning : settled.status = .queued ∨ settled.status = .running := by
      rw [hstatus]
      simpa [BulkJob.active] using hactive
    have hgoes : (settled.advanced now random).active = true := by
      simpa [BulkJob.active, BulkJob.advanced, hstatus] using hactive
    have hwritten := inv_putJob hinv hworking hgoes (jobInv_settled hjobInv hworking.active hsame
      hrow hsettled₄ now random rfl (.inl ⟨hrunning, rfl, Nat.lt_of_not_le hcursor⟩))
    have hstep : BulkInv platform s₅ ∧ Later s₄ s₅ := by
      rcases Outcome.state hexec with rfl | rfl
      · exact ⟨hinv, .refl _⟩
      · exact hwritten
    refine ⟨hstep.1, hstep.2, fun _ => trivial, fun _ _ => ?_⟩
    exact keeps_local_last rfl true_known trivial fun _ _ _ => trivial

theorem recipientFingerprint_of_render {snapshot : OutboundSnapshot}
    (h : renderRecipient platform job row = some snapshot) :
    recipientFingerprint platform job row = some (outboundCommandFingerprint platform snapshot
      job.actorUserId (job.attachments.map BulkAttachment.key)) := by
  rw [recipientFingerprint, h]
  rfl

section

variable (hworking : Working jobId stored rows s) (hsame : job.SameCommands stored)
  (hactive : job.active = true)
include hworking hsame hactive

theorem sendRecipient_keeps (hrow : rows[job.cursor]? = some row) {snapshot : OutboundSnapshot}
    (hrender : renderRecipient platform job row = some snapshot) :
    PassKeeps platform (fun _ _ => True) (sendRecipient platform jobId job rows row snapshot).run
      s := by
  refine keeps_local rfl working_known hworking (fun _ _ => trivial)
    fun s₁ authoritative s₂ _ hworking₁ hexec hworking₂ => ?_
  obtain ⟨rfl, rfl⟩ := Outcome.answered hexec
  exact keeps_returns (fun _ _ => trivial)
    (settleRow_keeps hworking₂ hsame hrow (recipientFingerprint_of_render hrender)
      (platform.digest_ne _)) fun settled s₃ hsettled => advance_keeps hsame hactive hrow hsettled

theorem recipientStep_keeps :
    PassKeeps platform (fun _ _ => True) (recipientStep platform jobId job rows).run s := by
  rw [recipientStep]
  split
  · trivial
  · rename_i row hrow
    split
    · trivial
    · exact sendRecipient_keeps hworking hsame hactive hrow ‹_›

end

theorem running_same (job : BulkJob) :
    (if job.status = .queued then { job with status := .running } else job).SameCommands job ∧
      (job.active = true →
        (if job.status = .queued then { job with status := .running } else job).active = true) := by
  split
  · exact ⟨⟨.running, rfl⟩, fun _ => rfl⟩
  · exact ⟨⟨job.status, rfl⟩, id⟩

theorem runJob_keeps (hworking : Working jobId job rows s) (canAccess : Bool) :
    PassKeeps platform (fun _ _ => True) (runJob platform jobId job rows canAccess).run s := by
  refine keeps_local rfl working_known hworking (fun _ _ => trivial)
    fun _ now s₂ _ _ _ hworking₂ => ?_
  split
  · refine endJob_keeps working_known hworking₂ fun s₃ hinv hworking₃ => ?_
    obtain ⟨_, hrows, hjob⟩ := hinv.jobs jobId job hworking₃.stored
    obtain rfl := Option.some.inj (hworking₃.admitted.symm.trans hrows)
    exact ⟨job, rows, hworking₃, jobInv_cancelled hjob now rfl⟩
  · split
    · exact keeps_local_last rfl true_known trivial fun _ _ _ => trivial
    · obtain ⟨hsame, hactive⟩ := running_same job
      exact recipientStep_keeps hworking₂ hsame (hactive hworking₂.active)

theorem not_over (hactive : job.active = true) (hcursor : job.cursor < rows.length) :
    ¬ (job.status = .done ∨ job.status = .cancelled ∨ rows.length ≤ job.cursor) := by
  rintro (hstatus | hstatus | hlength)
  · simp [BulkJob.active, hstatus] at hactive
  · simp [BulkJob.active, hstatus] at hactive
  · exact absurd hcursor (not_lt.mpr hlength)

/-- **A job of the queue** is taken up: it is neither over nor out of rows. -/
theorem takeJob_keeps (hworking : Working jobId job rows s) (hcursor : job.cursor < rows.length) :
    PassKeeps platform (fun _ _ => True) (takeJob platform jobId rows (some job)).run s := by
  rw [takeJob, if_neg (not_over hworking.active hcursor), authorizeJob]
  split
  · exact runJob_keeps hworking false
  · exact keeps_local rfl working_known hworking (fun _ _ => trivial)
      fun _ canAccess _ _ _ _ hworking₂ => runJob_keeps hworking₂ canAccess

/-- The head of the queue is a job that others leave alone. -/
theorem queued_working (hinv : BulkInv platform s) (hmem : jobId ∈ s.queue) :
    ∃ job rows, Working jobId job rows s ∧ s.rows jobId = some rows ∧ job.cursor < rows.length := by
  obtain ⟨job, hjob, hactive⟩ := hinv.queue jobId hmem
  obtain ⟨rows, hrows, hjobInv⟩ := hinv.jobs jobId job hjob
  obtain ⟨hstored, hcursor, -⟩ := hjobInv.active hactive
  exact ⟨job, rows, ⟨hjob, hactive, hrows⟩, hstored, hcursor⟩

/-- **A pass keeps the invariant**, whatever fails and wherever it stops. -/
theorem bulkPass_keeps (s : BulkStore) :
    PassKeeps platform (fun _ _ => True) (bulkPass platform).run s := by
  refine keeps_local rfl true_known trivial (fun _ _ => trivial)
    fun s₁ queue s₂ hinv _ hexec _ => ?_
  obtain ⟨rfl, rfl⟩ := Outcome.answered hexec
  cases hqueue : s₂.queue with
  | nil => exact keeps_local_last rfl true_known trivial fun _ _ _ => trivial
  | cons jobId others =>
      obtain ⟨job, rows, hworking, -, -⟩ :=
        queued_working hinv (hqueue ▸ List.mem_cons_self : jobId ∈ s₂.queue)
      refine keeps_local rfl working_known hworking (fun _ _ => trivial)
        fun s₃ stored s₄ _ hworking₃ hexec₃ hworking₄ => ?_
      obtain ⟨rfl, rfl⟩ := Outcome.answered hexec₃
      refine keeps_local rfl working_known hworking₄ (fun _ _ => trivial)
        fun s₅ answer s₆ hinv₅ hworking₅ hexec₅ hworking₆ => ?_
      obtain ⟨rfl, rfl⟩ := Outcome.answered hexec₅
      obtain ⟨_, hrows, hjob⟩ := hinv₅.jobs jobId job hworking₆.stored
      obtain rfl := Option.some.inj (hworking₆.admitted.symm.trans hrows)
      obtain ⟨hstored, hcursor, -⟩ := hjob.active hworking₆.active
      rw [hworking₃.stored, hstored]
      exact takeJob_keeps hworking₆ hcursor

end MailPortal.Bulk
