import MailPortal.Revocation.Invariant

/-!
# No Revocation is Forgotten

A row leaves the outbox when a worker has reconciled the connections that it is about, in a call
that began after the access change. A row that stays can be claimed again. A caller who is told
that nothing is left may rely on it: every earlier access change for the target has been followed
by a call to reconcile that returned.

That nobody else had taken over the lease rests on tokens that are drawn once. Two workers with one
token share a lease.

Main results:

* `revocation_never_forgotten` : all of this, in every run.
* `lease_of_shared_token_taken_over` : two workers with one token.
-/

namespace MailPortal.Revocation

open Concurrent
open scoped List

variable {toLowerCase : String → String}
variable {outbox : Outbox} {token : String} {target : RevocationTarget}
variable {row : ClaimedRow} {now : ℤ}

/-! ### What a worker may do -/

theorem statement_keeps {α : Type} {after outbox' : Outbox} {Answers : α → Prop} {answer : Option α}
    (h : Statement outbox after Answers answer outbox') (hinv : OutboxInv outbox)
    (hafter : OutboxInv after) (hstep : OutboxStep outbox after) :
    OutboxInv outbox' ∧ OutboxStep outbox outbox' := by
  rcases h with ⟨-, rfl | rfl⟩ | ⟨value, -, -, rfl⟩
  · exact ⟨hinv, outboxStep_refl outbox'⟩
  · exact ⟨hafter, hstep⟩
  · exact ⟨hafter, hstep⟩

/-- The operations that everybody may call. -/
def Free : Op → Prop
  | .complete .. => False
  | _ => True

theorem permits_free (op : Op) (hfree : Free op) :
    Permits (exec toLowerCase) OutboxInv OutboxStep (fun _ => True) op := by
  intro outbox hinv _ answer outbox' hexec
  cases op with
  | now =>
      obtain ⟨-, rfl⟩ := hexec
      exact ⟨hinv, outboxStep_refl outbox'⟩
  | createToken =>
      obtain ⟨-, rfl⟩ := hexec
      exact ⟨hinv, outboxStep_refl outbox'⟩
  | claimBatch target now token =>
      exact statement_keeps hexec hinv (hinv.claimBatch target now token) (List.prefix_append _ _)
  | renewLease id token now =>
      refine statement_keeps hexec hinv ?_ (outboxStep_refl _)
      refine hinv.updateWhere (fun _ => rfl) (fun _ => rfl) fun row lease hp hlease => ?_
      cases hlease
      exact (heldBy_iff.mp (Bool.and_eq_true_iff.mp hp).1).2
  | complete id token => exact hfree.elim
  | retry row token now errorCode =>
      refine statement_keeps hexec hinv ?_ (outboxStep_refl _)
      refine hinv.updateWhere (fun _ => rfl) (fun _ => rfl) fun row lease hp hlease => ?_
      cases hlease
  | hasDueWork target now => exact statement_keeps hexec hinv hinv (outboxStep_refl outbox)
  | hasOutstandingWork target =>
      refine statement_keeps hexec hinv ?_ (List.prefix_append _ _)
      exact hinv.log (by simp) (by simp) (by simp)
  | beginReconcile token subject =>
      obtain ⟨-, rfl⟩ := hexec
      exact ⟨hinv.log (by simp) (by simp) (by simp), List.prefix_append _ _⟩
  | awaitReconcile token subject =>
      rcases hexec with ⟨-, rfl⟩ | ⟨-, rfl⟩
      · exact ⟨hinv, outboxStep_refl outbox'⟩
      · exact ⟨hinv.log (by simp) (by simp) (by simp), List.prefix_append _ _⟩
  | changeAccess revoked now =>
      obtain ⟨hnodup, hfresh, hexec⟩ := hexec
      exact statement_keeps hexec hinv (hinv.insert now hnodup hfresh) (List.prefix_append _ _)

/-- **Who reconciled what a row is about** may delete the row, if it still holds it. -/
theorem permits_complete (token id : String) (subject : Subject) :
    Permits (exec toLowerCase) OutboxInv OutboxStep
      (fun outbox => Reconciled token id subject outbox.history) (.complete id token) :=
  fun _ hinv hreconciled _ _ hexec =>
    statement_keeps hexec hinv (hinv.complete hreconciled) (List.prefix_append _ _)

theorem Permits.of_free (op : Op) (hfree : Free op) (K : Outbox → Prop) :
    Permits (exec toLowerCase) OutboxInv OutboxStep K op :=
  fun outbox hinv _ => permits_free op hfree outbox hinv trivial

/-! ### Programs -/

theorem reconcileAndComplete_keeps (h : Claimed token row.id row.subject outbox.history) :
    TurnKeeps (exec toLowerCase) OutboxInv OutboxStep (fun _ _ => True)
      (reconcileAndComplete row token) outbox := by
  rw [reconcileAndComplete]
  split
  · exact trivial
  refine Prog.Keeps.of_known (fun outbox => Claimed token row.id row.subject outbox.history)
    (fun _ _ hstep hK => hK.mono hstep) h fun s₁ hinv₁ hclaimed answer s₂ hexec => ?_
  obtain ⟨hinv₂, hstep⟩ :=
    Permits.of_free (.beginReconcile token row.subject) trivial (fun _ => True) s₁ hinv₁
      trivial answer s₂ hexec
  refine ⟨hinv₂, hstep, ?_⟩
  obtain ⟨hanswer, rfl⟩ := hexec
  cases answer with
  | none => cases hanswer
  | some began =>
  refine Prog.Keeps.of_known (fun outbox => Began token row.id row.subject outbox.history)
    (fun _ _ hstep hK => hK.mono hstep) hclaimed.began fun s₃ hinv₃ hbegan answer' s₄ hexec' => ?_
  obtain ⟨hinv₄, hstep'⟩ :=
    Permits.of_free (.awaitReconcile token row.subject) trivial (fun _ => True) s₃ hinv₃
      trivial answer' s₄ hexec'
  refine ⟨hinv₄, hstep', ?_⟩
  rcases hexec' with ⟨rfl, -⟩ | ⟨hreturned, rfl⟩
  · exact trivial
  · obtain ⟨_, rfl⟩ := Option.isSome_iff_exists.mp hreturned
    exact keeps_ask (fun _ _ hstep hK => Reconciled.mono hK hstep) hbegan.returned
      (permits_complete token row.id row.subject) fun _ _ _ _ _ _ _ => trivial

theorem deliver_keeps (h : Claimed token row.id row.subject outbox.history) :
    TurnKeeps (exec toLowerCase) OutboxInv OutboxStep (fun _ _ => True) (deliver row token)
      outbox := by
  have hlasting : Lasting OutboxStep fun outbox =>
      Claimed token row.id row.subject outbox.history := fun _ _ hstep hK => hK.mono hstep
  refine keeps_ask hlasting h (Permits.of_free .now trivial _) ?_
  intro _ now s₂ _ _ _ hclaimed
  cases now with
  | none => exact trivial
  | some now =>
      refine keeps_ask hlasting hclaimed (Permits.of_free (.renewLease ..) trivial _) ?_
      intro _ changes s₄ _ _ _ hclaimed
      split
      · exact reconcileAndComplete_keeps hclaimed
      · exact trivial

theorem deliverRows_keeps {rows : List ClaimedRow} (counts : Counts)
    (h : ∀ row ∈ rows, Claimed token row.id row.subject outbox.history) :
    TurnKeeps (exec toLowerCase) OutboxInv OutboxStep (fun _ _ => True)
      (deliverRows token rows counts).run outbox := by
  induction rows generalizing counts outbox with
  | nil => exact trivial
  | cons row rows ih =>
      have hlasting : Lasting OutboxStep fun outbox =>
          ∀ row ∈ rows, Claimed token row.id row.subject outbox.history :=
        fun _ _ hstep hK row hrow => (hK row hrow).mono hstep
      have hrest := fun row hrow => h row (List.mem_cons_of_mem _ hrow)
      refine Prog.Keeps.bindLift (((deliver_keeps (h row List.mem_cons_self)).lasting hlasting
        hrest).mono fun delivery s' hknown => ?_)
      cases delivery with
      | delivered => exact ih _ hknown.2
      | leaseLost => exact ih _ hknown.2
      | failed stage =>
          refine keeps_call hlasting hknown.2 (Permits.of_free .now trivial _)
            (fun _ _ => trivial) fun _ now s₂ _ hrows => ?_
          exact keeps_call hlasting hrows (Permits.of_free (.retry ..) trivial _)
            (fun _ _ => trivial) fun _ _ s₄ _ hrows => ih _ hrows

theorem drainBatches_keeps (target : RevocationTarget) (batches : ℕ) (counts : Counts)
    (outbox : Outbox) :
    TurnKeeps (exec toLowerCase) OutboxInv OutboxStep (fun _ _ => True)
      (drainBatches target batches counts).run outbox := by
  induction batches generalizing counts outbox with
  | zero => exact trivial
  | succ batches ih =>
      refine keeps_call lasting_true trivial (permits_free .now trivial) (fun _ _ => trivial)
        fun _ claimNow _ _ _ => ?_
      refine keeps_call lasting_true trivial (permits_free .createToken trivial)
        (fun _ _ => trivial) fun _ token _ _ _ => ?_
      refine Prog.Keeps.of_known (fun _ => True) (fun _ _ _ h => h) trivial
        fun s₁ hinv₁ _ answer s₂ hexec => ?_
      obtain ⟨hinv₂, hstep⟩ := permits_free (.claimBatch target claimNow token) trivial s₁
        hinv₁ trivial answer s₂ hexec
      refine ⟨hinv₂, hstep, ?_⟩
      rcases hexec with ⟨rfl, -⟩ | ⟨rows, rfl, hperm, rfl⟩
      · exact trivial
      · refine Prog.Keeps.bindThrowing ((deliverRows_keeps _ fun row hrow =>
          claimed_of_mem hinv₁ (hperm.mem_iff.mp hrow)).mono fun result s' _ => ?_)
        refine ⟨fun _ => trivial, fun counts' _ => ?_⟩
        split
        · exact trivial
        · exact ih counts' s'

theorem drain_keeps (target : RevocationTarget) (maxBatches : Option JsNumber) (outbox : Outbox) :
    TurnKeeps (exec toLowerCase) OutboxInv OutboxStep (fun _ _ => True)
      (drainAgentConnectionRevocations target maxBatches).run outbox := by
  refine Prog.Keeps.bindThrowing ((drainBatches_keeps target _ _ outbox).mono fun _ s' _ => ?_)
  refine ⟨fun _ => trivial, fun counts _ => ?_⟩
  refine keeps_call lasting_true trivial (permits_free .now trivial) (fun _ _ => trivial)
    fun _ now _ _ _ => ?_
  exact keeps_call lasting_true trivial (permits_free (.hasDueWork target now) trivial)
    (fun _ _ => trivial) fun _ _ _ _ _ => trivial

/-! ### Callers who must know -/

/-- At its last look the caller found no row of its target, and every row that was there for the
target at the time of the call had been followed by a call to reconcile. -/
def NothingLeft (toLowerCase : String → String) (target : RevocationTarget)
    (before history : List Event) : Prop :=
  ∃ seen rows after, history = seen ++ .read rows :: after ∧ before <+: seen ∧
    (∀ row ∈ rows, target.matches toLowerCase row.subject = false) ∧
    ∀ id subject, .inserted id subject ∈ before → target.matches toLowerCase subject = true →
      ∃ token, Reconciled token id subject seen

theorem NothingLeft.mono {before history history' : List Event}
    (h : NothingLeft toLowerCase target before history) (hlater : history <+: history') :
    NothingLeft toLowerCase target before history' := by
  obtain ⟨seen, rows, after, rfl, h⟩ := h
  obtain ⟨rest, rfl⟩ := hlater
  exact ⟨seen, rows, after ++ rest, by rw [List.append_assoc, List.cons_append], h⟩

/-- A look that finds nothing. -/
theorem nothingLeft_of_read {before : List Event} (hinv : OutboxInv outbox)
    (hbefore : before <+: outbox.history)
    (hnone : outbox.hasOutstandingWork toLowerCase target = false) :
    NothingLeft toLowerCase target before (outbox.log (.read outbox.rows)).history := by
  have hrows : ∀ row ∈ outbox.rows, target.matches toLowerCase row.subject = false := by
    intro row hrow
    simpa using List.any_eq_false.mp hnone row hrow
  refine ⟨outbox.history, outbox.rows, [], rfl, hbefore, hrows, fun id subject hmem hmatch => ?_⟩
  have hinserted := hbefore.subset hmem
  rcases hinv.kept id subject hinserted with hrow | ⟨token, hdeleted⟩
  · obtain ⟨row, hleft, rfl⟩ := List.mem_map.mp hrow
    rw [inserted_unique hinv.fresh hinserted (hinv.inserted row hleft), hrows row hleft] at hmatch
    cases hmatch
  · obtain ⟨earlier, later, hhistory⟩ := List.append_of_mem hdeleted
    obtain ⟨hreconciled, -⟩ := hinv.earned earlier later token id subject hhistory
    exact ⟨token, hreconciled.mono (hhistory ▸ List.prefix_append _ _)⟩

theorem require_keeps (target : RevocationTarget) (outbox : Outbox) :
    TurnKeeps (exec toLowerCase) OutboxInv OutboxStep (fun result s' => result = some () →
        NothingLeft toLowerCase target outbox.history s'.history)
      (requireAgentConnectionReconciliation target).run outbox := by
  have hlasting : Lasting OutboxStep fun s => outbox.history <+: s.history :=
    fun _ _ hstep hK => hK.trans hstep
  refine Prog.Keeps.bindThrowing (((drain_keeps target none outbox).lasting hlasting
    (List.prefix_refl _)).mono fun result s' hknown =>
      ⟨fun _ h => absurd h (by simp), fun drained _ => ?_⟩)
  refine Prog.Keeps.of_known (fun s => outbox.history <+: s.history) hlasting hknown.2
    fun s₁ hinv₁ hbefore answer s₂ hexec => ?_
  obtain ⟨hinv₂, hstep⟩ := permits_free (.hasOutstandingWork target) trivial s₁ hinv₁ trivial
    answer s₂ hexec
  refine ⟨hinv₂, hstep, ?_⟩
  rcases hexec with ⟨rfl, -⟩ | ⟨found, rfl, rfl, rfl⟩
  · intro h
    cases h
  · intro hreturned
    refine nothingLeft_of_read hinv₁ hbefore ?_
    cases hfound : s₁.hasOutstandingWork toLowerCase target with
    | false => rfl
    | true => simp [hfound] at hreturned

/-- What callers who must know are told stays true. -/
def Told (toLowerCase : String → String) (ended : Ended) (outbox : Outbox) : Prop :=
  ∀ target before, ended = .required target before true →
    NothingLeft toLowerCase target before outbox.history

theorem starts_keeps {p : Fallible Op Value Ended} (h : Starts outbox p) :
    TurnKeeps (exec toLowerCase) OutboxInv OutboxStep (Told toLowerCase) p outbox := by
  cases h with
  | change revoked now =>
      refine keeps_ask lasting_true trivial (permits_free (.changeAccess revoked now) trivial)
        fun _ _ _ _ _ _ _ => ?_
      intro target before h
      cases h
  | drain target maxBatches =>
      refine Prog.Keeps.bind ((drain_keeps target maxBatches outbox).mono fun _ _ _ => ?_)
      intro target before h
      cases h
  | require target =>
      refine Prog.Keeps.bind ((require_keeps target outbox).mono fun result s' hresult => ?_)
      intro target' before h
      obtain ⟨rfl, rfl, hsome⟩ := Ended.required.inj h
      exact hresult (Option.isSome_iff_exists.mp hsome |>.choose_spec)

/-! ### The results -/

/-- Nobody claimed the row after the worker with this token did. -/
def NotTakenOver (token id : String) (history : List Event) : Prop :=
  ∀ ids ids' token', id ∈ ids → id ∈ ids' →
    ¬ [.claimed token ids, .claimed token' ids'] <+ history

theorem claims_of_selected {rows : List OutboxRow} {row : OutboxRow}
    (h : row ∈ selectedRows toLowerCase target now rows) :
    row ∈ rows ∧ claims toLowerCase target now rows row = true := by
  have hmem := (List.mem_insertionSort _).mp (List.mem_of_mem_take h)
  obtain ⟨hrow, hdue⟩ := List.mem_filter.mp hmem
  obtain ⟨hdue, -⟩ := Bool.and_eq_true_iff.mp hdue
  refine ⟨hrow, Bool.and_eq_true_iff.mpr ⟨decide_eq_true (List.mem_map_of_mem h), ?_⟩⟩
  exact (Bool.and_eq_true_iff.mp hdue).2

/-- **A row can be claimed again**: a claim takes every row that is due and free, up to a full
batch. -/
theorem claim_takes {outbox' : Outbox} (hinv : OutboxInv outbox) {row : OutboxRow}
    (hrow : row ∈ outbox.rows) {claimed : List ClaimedRow} (hattempt : row.nextAttemptAt ≤ now)
    (hlease : ∀ lease, row.lease = some lease → lease.expiresAt ≤ now)
    (hmatch : target.matches toLowerCase row.subject = true)
    (hclaim : exec toLowerCase (.claimBatch target now token) outbox (some claimed) outbox') :
    (∃ taken ∈ claimed, taken.id = row.id) ∨ batchSize ≤ claimed.length := by
  have hperm : claimed.Perm (outbox.claimedRows toLowerCase target now token) := by
    rcases hclaim with ⟨h, -⟩ | ⟨_, h, hperm, -⟩
    · cases h
    · cases h
      exact hperm
  have hdue : (row.due now && target.matches toLowerCase row.subject) = true := by
    simpa [OutboxRow.due, OutboxRow.leaseFree, Option.all_eq_true, hattempt, hmatch] using hlease
  by_cases hselected : row ∈ selectedRows toLowerCase target now outbox.rows
  · obtain ⟨-, hclaims⟩ := claims_of_selected hselected
    refine .inl ⟨(row.claimed token now).returning, hperm.mem_iff.mpr ?_, rfl⟩
    exact List.mem_map.mpr ⟨row, List.mem_filter.mpr ⟨hrow, hclaims⟩, rfl⟩
  · refine .inr ?_
    have hfull : (selectedRows toLowerCase target now outbox.rows).length = batchSize := by
      rw [selectedRows, List.length_take]
      refine Nat.min_eq_left (Nat.le_of_not_lt fun hlt => hselected ?_)
      rw [selectedRows, List.take_of_length_le hlt.le]
      exact (List.mem_insertionSort _).mpr (List.mem_filter.mpr ⟨hrow, hdue⟩)
    have hnodup : (selectedRows toLowerCase target now outbox.rows).Nodup := by
      refine List.Nodup.sublist (List.take_sublist _ _) ?_
      exact (List.perm_insertionSort _ _).nodup_iff.mpr ((hinv.keys.of_map _).filter _)
    have hsub : selectedRows toLowerCase target now outbox.rows ⊆
        outbox.rows.filter (claims toLowerCase target now outbox.rows) :=
      fun selected hmem => List.mem_filter.mpr (claims_of_selected hmem)
    rw [hperm.length_eq, Outbox.claimedRows, List.length_map, ← hfull]
    exact (List.subperm_of_subset hnodup hsub).length_le

/-- **No revocation is forgotten.** In every run of access changes, drains and callers who must
know, with any targets, clocks and tokens:

* a row is deleted only by a worker who claimed it after it was inserted, and whose call to
  reconcile what it is about began after that, and returned; nobody took over the lease when
  tokens are drawn once;
* a row that is there is claimed once it is due and its lease has expired, up to a full batch;
* a caller who is told that nothing is left found no row of its target at its last look, and every
  access change for the target before the call had been followed by a call to reconcile that
  returned. -/
theorem revocation_never_forgotten {pool : Pool Op (fun op => Option (Value op)) Ended Outbox}
    (hpool : Reachable (exec toLowerCase) Starts emptyOutbox pool) :
    (∀ before after token id subject,
      pool.state.history = before ++ .deleted token id subject :: after →
        Reconciled token id subject before ∧
          ((tokens before).Nodup → NotTakenOver token id before)) ∧
    (∀ row ∈ pool.state.rows, ∀ target now token claimed outbox', row.nextAttemptAt ≤ now →
      (∀ lease, row.lease = some lease → lease.expiresAt ≤ now) →
      target.matches toLowerCase row.subject = true →
      exec toLowerCase (.claimBatch target now token) pool.state (some claimed) outbox' →
        (∃ taken ∈ claimed, taken.id = row.id) ∨ batchSize ≤ claimed.length) ∧
    ∀ target before, .done (.required target before true) ∈ pool.programs →
      NothingLeft toLowerCase target before pool.state.history := by
  have hstable : Stable (turnRules Op OutboxInv OutboxStep) (Told toLowerCase) :=
    fun ended s s' hstep htold target before h => (htold target before h).mono hstep
  obtain ⟨hkeeps, -⟩ := Reachable.keepsPool (fun _ => rfl) (fun _ _ h => h) hstable
    (fun _ _ _ hstart => starts_keeps hstart) outboxInv_empty hpool
  have hinv : OutboxInv pool.state := hkeeps.inv
  refine ⟨fun before after token id subject h => ?_, ?_, fun target before h => ?_⟩
  · obtain ⟨hreconciled, hlast⟩ := hinv.earned before after token id subject h
    exact ⟨hreconciled, fun hnodup ids ids' token' hid hid' =>
      no_later_claim hnodup hlast hid hid'⟩
  · exact fun row hrow target now token claimed outbox' hattempt hlease hmatch hclaim =>
      claim_takes hinv hrow hattempt hlease hmatch hclaim
  · exact hkeeps.keeps _ h target before rfl

/-! ### A run, and two workers with one token -/

def everyTarget : RevocationTarget := ⟨none, none, none⟩

/-- The outbox after an access change. -/
def sampleOutbox : Outbox := emptyOutbox.insert [("acr_1", .mailbox "desk@example.com")] 0

/-- The access change commits. -/
theorem sample_changed : Reachable (exec id) Starts emptyOutbox ⟨sampleOutbox, [.done .done]⟩ := by
  refine .tail (.single (.start emptyOutbox [] _ (.change emptyOutbox
    [("acr_1", .mailbox "desk@example.com")] 0))) ?_
  refine Turn.first (r := some ()) ?_ _ []
  exact ⟨by simp, by simp [insertedIds, emptyOutbox], .inr ⟨(), rfl, trivial, rfl⟩⟩

/-- A caller drains the outbox, and is told that nothing is left. -/
theorem sample_required : ∃ outbox', (requireAgentConnectionReconciliation everyTarget).run.Runs
    (exec id) sampleOutbox (some ()) outbox' := by
  refine ⟨?_, ?_⟩
  rotate_left
  · refine .call (r := some (0 : ℤ)) ⟨rfl, rfl⟩ ?_
    refine .call (r := some "lease") ⟨rfl, rfl⟩ ?_
    refine .call (r := some [⟨"acr_1", .mailbox "desk@example.com", 1⟩])
      (.inr ⟨_, rfl, List.Perm.refl _, rfl⟩) ?_
    refine .call (r := some (0 : ℤ)) ⟨rfl, rfl⟩ ?_
    refine .call (r := some (1 : ℕ)) (.inr ⟨_, rfl, rfl, rfl⟩) ?_
    refine .call (r := some ()) ⟨rfl, rfl⟩ ?_
    refine .call (r := some ()) (.inr ⟨rfl, rfl⟩) ?_
    refine .call (r := some (1 : ℕ)) (.inr ⟨_, rfl, rfl, rfl⟩) ?_
    refine .call (r := some (0 : ℤ)) ⟨rfl, rfl⟩ ?_
    refine .call (r := some false) (.inr ⟨_, rfl, rfl, rfl⟩) ?_
    refine .call (r := some false) (.inr ⟨_, rfl, rfl, rfl⟩) ?_
    exact .done _ _

/-- The results hold of that run. -/
theorem revocation_never_forgotten_sample :
    ∃ outbox' : Outbox, NothingLeft id everyTarget sampleOutbox.history outbox'.history := by
  obtain ⟨outbox', hruns⟩ := sample_required
  have hresult : ((requireAgentConnectionReconciliation everyTarget).run >>= fun result =>
      (pure (.required everyTarget sampleOutbox.history result.isSome) :
        Fallible Op Value Ended)).Runs (exec id) sampleOutbox
          (.required everyTarget sampleOutbox.history true) outbox' := hruns.bind (.done _ _)
  have hpool : Reachable (exec id) Starts emptyOutbox
      ⟨outbox', [.done (.required everyTarget sampleOutbox.history true), .done .done]⟩ :=
    (sample_changed.tail (.start _ _ _ (.require sampleOutbox everyTarget))).trans
      (hresult.turns _)
  exact ⟨outbox', (revocation_never_forgotten hpool).2.2 everyTarget sampleOutbox.history
    List.mem_cons_self⟩

/-- What has happened when two workers with one token have claimed a row. -/
def sharedHistory : List Event :=
  [.inserted "acr_1" (.mailbox "desk@example.com"), .claimed "lease" ["acr_1"],
    .began "lease" (.mailbox "desk@example.com"), .claimed "lease" ["acr_1"],
    .returned "lease" (.mailbox "desk@example.com")]

/-- A drain of everything. -/
def drainEverything : Fallible Op Value Ended :=
  (drainAgentConnectionRevocations everyTarget none).run >>= fun _ => pure .done

/-- The outbox while the first worker waits for its call to return. -/
def waitingOutbox : Outbox :=
  ((sampleOutbox.claimBatch id everyTarget 0 "lease").renewLease "acr_1" "lease" 0).log
    (.began "lease" (.mailbox "desk@example.com"))

/-- The outbox when the second worker has taken over. -/
def takenOutbox : Outbox := waitingOutbox.claimBatch id everyTarget 60000 "lease"

/-- The outbox when the first worker has deleted the row. -/
def sharedOutbox : Outbox :=
  (takenOutbox.log (.returned "lease" (.mailbox "desk@example.com"))).complete "acr_1" "lease"

/-- The first worker, before and after the second takes over. -/
theorem first_worker_steps : ∃ p p', drainEverything.Steps (exec id) sampleOutbox p waitingOutbox ∧
    p.Steps (exec id) takenOutbox p' sharedOutbox := by
  refine ⟨?_, ?_, ?_, ?_⟩
  rotate_left 2
  · refine .call (r := some (0 : ℤ)) ⟨rfl, rfl⟩ ?_
    refine .call (r := some "lease") ⟨rfl, rfl⟩ ?_
    refine .call (r := some [⟨"acr_1", .mailbox "desk@example.com", 1⟩])
      (.inr ⟨_, rfl, List.Perm.refl _, rfl⟩) ?_
    refine .call (r := some (0 : ℤ)) ⟨rfl, rfl⟩ ?_
    refine .call (r := some (1 : ℕ)) (.inr ⟨_, rfl, rfl, rfl⟩) ?_
    refine .call (r := some ()) ⟨rfl, rfl⟩ ?_
    exact .refl _ _
  · refine .call (r := some ()) (.inr ⟨rfl, rfl⟩) ?_
    refine .call (r := some (1 : ℕ)) (.inr ⟨_, rfl, rfl, rfl⟩) ?_
    exact .refl _ _

theorem second_worker_steps :
    ∃ p, drainEverything.Steps (exec id) waitingOutbox p takenOutbox := by
  refine ⟨?_, ?_⟩
  rotate_left
  · refine .call (r := some (60000 : ℤ)) ⟨rfl, rfl⟩ ?_
    refine .call (r := some "lease") ⟨rfl, rfl⟩ ?_
    refine .call (r := some [⟨"acr_1", .mailbox "desk@example.com", 2⟩])
      (.inr ⟨_, rfl, List.Perm.refl _, rfl⟩) ?_
    exact .refl _ _

/-- **Two workers with one token**: the second takes over an expired lease, and the first deletes
the row all the same. -/
theorem lease_of_shared_token_taken_over :
    (∃ pool, Reachable (exec id) Starts emptyOutbox pool ∧ pool.state.history =
      sharedHistory ++ [.deleted "lease" "acr_1" (.mailbox "desk@example.com")]) ∧
    ¬ NotTakenOver "lease" "acr_1" sharedHistory := by
  constructor
  · obtain ⟨p, p', hfirst, hlast⟩ := first_worker_steps
    obtain ⟨q, hsecond⟩ := second_worker_steps
    have hstarted := sample_changed.tail (.start _ _ drainEverything (.drain _ _ _))
    have hwaiting := hstarted.trans (hfirst.turns [] [.done .done])
    have htaken := (hwaiting.tail (.start _ _ drainEverything (.drain _ _ _))).trans
      (hsecond.turns [] [p, .done .done])
    exact ⟨_, htaken.trans (hlast.turns [q] [.done .done]), rfl⟩
  · intro h
    exact h ["acr_1"] ["acr_1"] "lease" List.mem_cons_self List.mem_cons_self (by decide)

end MailPortal.Revocation
