import MailPortal.Push.Invariant

/-!
# Delivery of Push Notifications

A run of `processPushOutbox` calls the provider for a delivery only while it holds the lease of
it, and after a check of the boundaries and of the device's user. Nothing happens between that
check and the call, but the clock is read again.

Main results:

* `processPushOutbox_keeps` : a run keeps to the rules of the outbox, whatever others do while it
  waits, and leaves no notification pending without need.
* `push_bounded_and_final` : in every sequence of runs a delivery is sent at most `maxAttempts`
  times, and never once it is over.
* `sent_after_latest_start` : the call may come later than the latest start, when the clock moves
  on between the check and the call.
-/

namespace MailPortal.Push

open Concurrent Table

variable {now token : String} {tables tables' : PushTables} {log : List PushEvent} {w' : PushWorld}
  {unsent : ℕ} {op : PushOp} {startedAt : ℤ} {deps : PushDependencies}
variable {notificationId : String} {d d' : PushDeliveryRow} {input : EnqueuePushInput}
  {answer : String × ℕ} {checkedAt calledAt : ℤ}

/-! ### The rules -/

/-- The provider may be called for a delivery: its lease is held, the subscription is its user's,
and the boundaries were checked in time. -/
def SendAllowed (platform : PushPlatform) (tables : PushTables)
    (notificationId subscriptionId : String) (checkedAt calledAt : ℤ) : Prop :=
  checkedAt ≤ calledAt ∧
  (∃ d ∈ tables.deliveries, d.key = (notificationId, subscriptionId) ∧ d.status = .sending ∧
    ∃ s ∈ tables.subscriptions, s.id = subscriptionId ∧ s.userId = some d.targetUserId) ∧
  ∀ n ∈ tables.notifications, n.id = notificationId →
    ∀ expiry, platform.dateParse n.expiresAt = some expiry →
      checkedAt < expiry - finalizationBudgetMs - sendBudgetMs ∧
        calledAt < expiry - finalizationBudgetMs

/-- What a turn of a run may do. -/
structure PushStep (platform : PushPlatform) (w w' : PushWorld) : Prop where
  tables : TableStep w.tables w'.tables
  log : w'.log = w.log ∨ w'.tables = w.tables ∧
    ∃ notificationId subscriptionId checkedAt calledAt,
      w'.log = .sent notificationId subscriptionId checkedAt calledAt :: w.log ∧
        SendAllowed platform w.tables notificationId subscriptionId checkedAt calledAt

/-- The rules of the outbox. -/
def pushRules (platform : PushPlatform) : Rules PushOp PushWorld where
  Inv w := TablesOk w.log w.tables
  Step := PushStep platform
  Others := PushWorld.Others platform
  waits := PushOp.waits

/-- A program keeps to the rules of the outbox. -/
abbrev KeepsPush {α : Type} (platform : PushPlatform) (Q : α → PushWorld → Prop) (p : PushProg α)
    (w : PushWorld) : Prop := p.Keeps (PushOp.Exec platform) (pushRules platform) Q w

/-! ### What others do -/

variable {platform : PushPlatform}

/-- A new delivery has not been claimed. -/
theorem newDeliveries_pending {subscriptions : List PushSubscriptionRow}
    (h : d ∈ newDeliveries notificationId now subscriptions) :
    d.notificationId = notificationId ∧ d.status = .pending ∧ d.attemptCount = 0 ∧
      d.leaseToken = none := by
  obtain ⟨s, -, hs⟩ := List.mem_filterMap.mp h
  obtain ⟨userId, -, rfl⟩ := Option.map_eq_some_iff.mp hs
  exact ⟨rfl, rfl, rfl, rfl⟩

/-- What enqueueing does, when it does not throw. -/
theorem enqueue_cases (h : enqueuePushNotification platform input tables = some (answer, tables')) :
    (∀ n ∈ tables.notifications, n.id ≠ answer.1) ∧
      tables'.subscriptions = tables.subscriptions ∧
      tables'.deliveries =
        tables.deliveries ++ newDeliveries answer.1 input.now tables.subscriptions ∧
      (tables'.deliveries.map PushDeliveryRow.key).Nodup ∧
      ∃ n, tables'.notifications = tables.notifications ++ [n] ∧ n.id = answer.1 ∧
        (n.state ≠ .pending → ∀ d ∈ tables'.deliveries, d.notificationId ≠ answer.1) := by
  obtain ⟨nowMs, -, h⟩ := Option.bind_eq_some_iff.mp h
  obtain ⟨_, -, h⟩ := Option.bind_eq_some_iff.mp h
  obtain ⟨expiresAt, -, h⟩ := Option.bind_eq_some_iff.mp h
  obtain ⟨_, hfresh, h⟩ := Option.bind_eq_some_iff.mp h
  obtain ⟨_, hkeys, h⟩ := Option.bind_eq_some_iff.mp h
  cases h
  have hfresh := (Option.guard_eq_some' _).mp hfresh
  have hkeys := (Option.guard_eq_some' _).mp hkeys
  refine ⟨fun n hn => ?_, rfl, rfl, hkeys, _, rfl, rfl, fun hstate d hd hid => ?_⟩
  · have hboth := List.all_eq_true.mp hfresh n hn
    simp only [Bool.and_eq_true, decide_eq_true_eq] at hboth
    exact hboth.1
  · -- the deliveries of the notification were counted
    refine hstate ?_
    rw [if_neg]
    refine (List.countP_pos_iff.mpr ⟨d, hd, ?_⟩).ne'
    exact decide_eq_true hid

/-- A new event does not matter to the deliveries of other notifications. -/
theorem sendCount_enqueued_le (key : String × String) (notificationId : String)
    (log : List PushEvent) :
    sendCount key (.enqueued notificationId :: log) ≤ sendCount key log := by
  rw [sendCount]
  split
  · exact Nat.zero_le _
  · exact le_rfl

/-- A new notification keeps the invariant. -/
theorem enqueue_keeps (h : TablesOk log tables)
    (henqueue : enqueuePushNotification platform input tables = some (answer, tables')) :
    TablesOk (.enqueued answer.1 :: log) tables' := by
  obtain ⟨hfresh, hsubscriptions, hdeliveries, hkeys, n, hnotifications, hid, hnone⟩ :=
    enqueue_cases henqueue
  have hcases : ∀ d ∈ tables'.deliveries, d ∈ tables.deliveries ∨
      d.notificationId = answer.1 ∧ d.status = .pending ∧ d.attemptCount = 0 ∧
        d.leaseToken = none := by
    intro d hd
    rw [hdeliveries] at hd
    exact (List.mem_append.mp hd).imp_right newDeliveries_pending
  have hmem : n ∈ tables'.notifications := by
    rw [hnotifications]
    exact List.mem_append_right _ List.mem_cons_self
  have hold : ∀ n' ∈ tables.notifications, n' ∈ tables'.notifications := by
    intro n' hn'
    rw [hnotifications]
    exact List.mem_append_left _ hn'
  refine ⟨hsubscriptions ▸ h.devices, ?_, hkeys, fun d hd => ?_, fun d hd => ?_,
    fun n' hn' hstate d hd hsame => ?_, fun key =>
      (sendCount_enqueued_le key answer.1 log).trans (h.bounded key)⟩
  · rw [hnotifications, List.map_append, List.map_singleton]
    refine List.Nodup.append h.ids (List.nodup_singleton _) fun id hid' hlast => ?_
    obtain ⟨n', hn', rfl⟩ := List.mem_map.mp hid'
    exact hfresh n' hn' ((List.mem_singleton.mp hlast).trans hid)
  · rcases hcases d hd with hd | ⟨hnew, -⟩
    · obtain ⟨n', hn', hid'⟩ := h.known d hd
      exact ⟨n', hold n' hn', hid'⟩
    · exact ⟨n, hmem, hid.trans hnew.symm⟩
  · rcases hcases d hd with hd | ⟨hnew, hstatus, hcount, hlease⟩
    · have hrow := h.rows d hd
      exact ⟨(sendCount_enqueued_le d.key answer.1 log).trans hrow.sent, hrow.most, hrow.due,
        hrow.lease⟩
    · have hzero : sendCount d.key (.enqueued answer.1 :: log) = 0 := if_pos hnew.symm
      refine ⟨hzero.le.trans (Nat.zero_le _), ?_, fun _ => ?_, fun _ => hlease⟩
      · rw [hcount]
        decide
      · rw [hcount]
        decide
  · rw [hnotifications] at hn'
    rcases List.mem_append.mp hn' with hn' | hn'
    · rcases hcases d hd with hd | ⟨hnew, -⟩
      · exact h.idle n' hn' hstate d hd hsame
      · exact absurd (hsame.symm.trans hnew) (hfresh n' hn')
    · obtain rfl := List.mem_singleton.mp hn'
      exact absurd (hsame.trans hid) (hnone hstate d hd)

variable {w : PushWorld}

/-- **Others keep the invariant.** -/
theorem others_keep (h : TablesOk w.log w.tables) (hothers : PushWorld.Others platform w w') :
    TablesOk w'.log w'.tables := by
  cases hothers with
  | enqueue input answer tables henqueue => exact enqueue_keeps h henqueue
  | subscriptions subscriptions hnodup => exact (h.setSubscriptions hnodup).1
  | deleteEmail emailId => exact (h.deleteNotifications _).1
  | tick t ht => exact h

/-- What a run knows of its claim stays true. -/
theorem claimed_others {row : DueDelivery} (h : TablesOk w.log w.tables)
    (hclaimed : Claimed w.log w.tables row token unsent)
    (hothers : PushWorld.Others platform w w') :
    Claimed w'.log w'.tables row token unsent := by
  cases hothers with
  | enqueue input answer tables henqueue =>
      obtain ⟨hfresh, -, hdeliveries, -, n, hnotifications, hid, -⟩ := enqueue_cases henqueue
      intro d hd hheld
      rw [hdeliveries] at hd
      obtain ⟨hkey, hsending, -⟩ := isHeld_sending hheld
      rcases List.mem_append.mp hd with hd | hd
      · obtain ⟨hcount, hsent, htarget, hexpires⟩ := hclaimed d hd hheld
        have hle := sendCount_enqueued_le d.key answer.1 w.log
        refine ⟨hcount, (Nat.add_le_add_right hle unsent).trans hsent, htarget,
          fun n' hn' hid' => ?_⟩
        rw [hnotifications] at hn'
        rcases List.mem_append.mp hn' with hn' | hn'
        · exact hexpires n' hn' hid'
        · -- the notification of the claim is still there, so it is not the new one
          obtain rfl := List.mem_singleton.mp hn'
          obtain ⟨n₀, hn₀, hid₀⟩ := h.known d hd
          have hsame : n₀.id = answer.1 :=
            (hid₀.trans (congrArg Prod.fst hkey)).trans (hid'.symm.trans hid)
          exact absurd hsame (hfresh n₀ hn₀)
      · rw [(newDeliveries_pending hd).2.1] at hsending
        cases hsending
  | subscriptions subscriptions hnodup => exact hclaimed
  | deleteEmail emailId =>
      intro d hd hheld
      obtain ⟨hcount, hsent, htarget, hexpires⟩ := hclaimed d (mem_deleteWhere.mp hd).1 hheld
      exact ⟨hcount, hsent, htarget, fun n hn => hexpires n (mem_deleteWhere.mp hn).1⟩
  | tick t ht => exact hclaimed

/-- The invariant, and what a run knows of its claim. -/
abbrev Holding (row : DueDelivery) (token : String) (unsent : ℕ) (w : PushWorld) : Prop :=
  TablesOk w.log w.tables ∧ Claimed w.log w.tables row token unsent

section

variable {w : PushWorld} {row : DueDelivery} (h : Holding row token unsent w)
include h

theorem Holding.before (hbefore : (pushRules platform).Before op w w') :
    Holding row token unsent w' := by
  rcases hbefore with rfl | ⟨-, hsince⟩
  · exact h
  · induction hsince with
    | refl => exact h
    | tail _ hothers ih => exact ⟨others_keep ih.1 hothers, claimed_others ih.1 ih.2 hothers⟩

theorem Holding.tick (t : ℤ) :
    Holding row token unsent { w with clock := t } := h

/-- All that was claimed may already have been sent. -/
theorem Holding.weaken : Holding row token 0 w :=
  ⟨h.1, fun d hd hheld => by
    obtain ⟨hcount, hsent, hrest⟩ := h.2 d hd hheld
    exact ⟨hcount, by omega, hrest⟩⟩

end

/-! ### Operations -/

section Rules

variable {α : Type} {Q : α → PushWorld → Prop} {w : PushWorld}

theorem keeps_pure {a : α} (h : Q a w) : KeepsPush platform Q (pure a) w := h

theorem keeps_ite {c : Prop} [Decidable c] {p q : PushProg α} (hp : c → KeepsPush platform Q p w)
    (hq : ¬ c → KeepsPush platform Q q w) : KeepsPush platform Q (if c then p else q) w := by
  split
  · rename_i h
    exact hp h
  · rename_i h
    exact hq h

/-- A turn that changes nothing but the clock. -/
theorem PushStep.same (htables : w'.tables = w.tables) (hlog : w'.log = w.log) :
    PushStep platform w w' :=
  ⟨htables ▸ TableStep.refl w.tables, .inl hlog⟩

/-- An operation at which nobody waits. -/
theorem before_of_sync (hwaits : op.waits = false) (hbefore : (pushRules platform).Before op w w') :
    w' = w := by
  rcases hbefore with rfl | ⟨hwaits', -⟩
  · rfl
  · exact absurd (hwaits'.symm.trans hwaits) nofun

theorem keeps_clock {f : ℤ → PushProg α}
    (h : ∀ t, w.clock ≤ t → KeepsPush platform Q (f t) { w with clock := t }) :
    KeepsPush platform Q (ask .clock >>= f) w := by
  intro w₁ hbefore hinv t w₂ hexec
  obtain rfl := before_of_sync rfl hbefore
  obtain ⟨ht, rfl⟩ := hexec
  exact ⟨hinv, .same rfl rfl, h t ht⟩

/-- An operation that reads. -/
theorem keeps_read {f : op.Answer → PushProg α} (hwaits : op.waits = false)
    (hsame : ∀ r w', op.Exec platform w r w' → w' = w)
    (h : ∀ r, op.Exec platform w r w → KeepsPush platform Q (f r) w) :
    KeepsPush platform Q (ask op >>= f) w := by
  intro w₁ hbefore hinv r w₂ hexec
  obtain rfl := before_of_sync hwaits hbefore
  obtain rfl := hsame r w₂ hexec
  exact ⟨hinv, .same rfl rfl, h r hexec⟩

theorem keeps_isoText {t : ℤ} {f : String → PushProg α}
    (h : ∀ text, KeepsPush platform Q (f text) w) :
    KeepsPush platform Q (ask (.isoText t) >>= f) w :=
  keeps_read rfl (fun _ _ hexec => hexec.2) fun text _ => h text

theorem keeps_transact {transaction : PushTransaction} {f : Unit → PushProg α}
    (hallowed : transaction.Allowed w.log w.tables)
    (h : ∀ tables, transaction.apply platform w.tables = some tables →
      KeepsPush platform Q (f ()) { w with tables := tables }) :
    KeepsPush platform Q (transact transaction >>= f) w := by
  intro w₁ hbefore hinv r w₂ hexec
  obtain rfl := before_of_sync rfl hbefore
  obtain ⟨tables, happly, rfl⟩ := hexec
  obtain ⟨hinv₂, hstep⟩ := PushTransaction.apply_keeps hinv hallowed happly
  exact ⟨hinv₂, ⟨hstep, .inl rfl⟩, h tables happly⟩

/-- What is claimed is held. -/
theorem keeps_claim {f : Option DueDelivery → PushProg α}
    (h : ∀ row w', (∀ r, row = some r → Holding r token 1 w') → KeepsPush platform Q (f row) w') :
    KeepsPush platform Q (ask (.claimNext now token) >>= f) w := by
  intro w₁ hbefore hinv row w₂ hexec
  obtain rfl := before_of_sync rfl hbefore
  obtain ⟨tables, hclaim, rfl⟩ := hexec
  obtain ⟨hinv₂, hstep⟩ := claimNext_keeps hinv hclaim
  refine ⟨hinv₂, ⟨hstep, .inl rfl⟩, h row _ ?_⟩
  rintro r rfl
  exact ⟨hinv₂, claimNext_claimed hinv hclaim⟩

/-- An operation at which the run waits, with the lease of a claim. -/
theorem keeps_wait {f : op.Answer → PushProg α} {row : DueDelivery}
    (hholding : Holding row token unsent w) (hsame : ∀ r w₁ w₂, op.Exec platform w₁ r w₂ → w₂ = w₁)
    (h : ∀ r w₁, Holding row token unsent w₁ → KeepsPush platform Q (f r) w₁) :
    KeepsPush platform Q (ask op >>= f) w := by
  intro w₁ hbefore hinv r w₂ hexec
  obtain rfl := hsame r w₁ w₂ hexec
  exact ⟨hinv, .same rfl rfl, h r w₂ (hholding.before hbefore)⟩

end Rules

/-! ### The run -/

/-- Whatever the loop does next. -/
abbrev Anyhow {α : Type} : α → PushWorld → Prop := fun _ _ => True

section Claim

variable {w : PushWorld} {deadlines : SendDeadlines} {row : DueDelivery} {claimToken : String}

/-- A boundary that was not reached. -/
theorem releaseAtBoundary_keeps (h : Holding row claimToken 1 w) (boundaryMs : ℤ) :
    KeepsPush platform (fun boundary w' => boundary = none →
        w' = w ∧ isPast deadlines.latestExpirySendStart boundaryMs = false)
      (releaseAtBoundary deadlines row claimToken boundaryMs) w := by
  refine keeps_ite (fun _ => ?_) fun hexpiry => keeps_ite (fun _ => ?_) fun _ => ?_
  · exact keeps_isoText fun now => keeps_transact trivial fun _ _ => keeps_pure nofun
  · exact keeps_isoText fun now => keeps_transact h.2 fun _ _ => keeps_pure nofun
  · exact keeps_pure fun _ => ⟨rfl, Bool.eq_false_iff.mpr hexpiry⟩

/-- The result of a send is recorded, whatever it is. -/
theorem recordResult_keeps (h : Holding row claimToken 0 w) (device : SubscriptionCapability)
    (result : SendPushResult) (timedOut : Bool) :
    KeepsPush platform Anyhow
      (recordResult deadlines row claimToken device result timedOut) w := by
  refine keeps_read rfl (fun _ _ hexec => hexec.2) fun owned _ => ?_
  refine keeps_ite (fun _ => keeps_pure trivial) fun _ => ?_
  refine keeps_read rfl (fun _ _ hexec => hexec.2) fun after _ => ?_
  refine keeps_ite (fun _ => ?_) fun _ => ?_
  · exact keeps_clock fun nowMs _ => keeps_transact h.2 fun _ _ => keeps_pure trivial
  refine keeps_clock fun finishedAtMs _ => keeps_ite (fun _ => ?_) fun _ => ?_
  · exact keeps_isoText fun finishedAt => keeps_transact trivial fun _ _ => keeps_pure trivial
  refine keeps_ite (fun _ => ?_) fun _ => ?_
  · exact keeps_isoText fun finishedAt => keeps_transact h.2 fun _ _ => keeps_pure trivial
  refine keeps_isoText fun finishedAt => ?_
  cases result with
  | ok => exact keeps_transact trivial fun _ _ => keeps_pure trivial
  | failed statusCode =>
      dsimp only
      split
      · refine keeps_ite (fun _ => ?_) fun _ => ?_
        · exact keeps_transact trivial fun _ _ => keeps_pure trivial
        · exact keeps_transact trivial fun _ _ => keeps_pure trivial
      · exact keeps_clock fun nowMs _ => keeps_transact h.2 fun _ _ => keeps_pure trivial

/-- The lease is held, and the device is the user's. -/
def Sendable (tables : PushTables) (row : DueDelivery) (token : String) : Prop :=
  (∃ d ∈ tables.deliveries, isHeld row token d = true) ∧
    ∃ s ∈ tables.subscriptions, s.id = row.subscriptionId ∧ s.userId = some row.targetUserId

section

variable (h : Holding row claimToken 1 w) (hsendable : Sendable w.tables row claimToken)
include h hsendable

/-- What is recorded of the device does not matter to the claim. -/
theorem recordGeneration_holding (generation : ℤ) :
    Holding row claimToken 1
        { w with tables := recordGeneration row claimToken generation w.tables } ∧
      Sendable (recordGeneration row claimToken generation w.tables) row claimToken := by
  refine ⟨⟨(recordGeneration_keeps h.1 row claimToken generation).1, fun d' hd' hheld => ?_⟩, ?_,
    hsendable.2⟩
  · rcases mem_updateWhere.mp hd' with ⟨d, hd, -, rfl⟩ | ⟨hd, -⟩
    · exact h.2 d hd hheld
    · exact h.2 d' hd hheld
  · obtain ⟨d, hd, hheld⟩ := hsendable.1
    obtain ⟨hkey, -, htoken⟩ := isHeld_sending hheld
    obtain ⟨hnotification, hsubscription⟩ := Prod.mk.inj hkey
    exact ⟨{ d with attemptedSubscriptionGeneration := some generation },
      mem_updateWhere.mpr (.inl ⟨d, hd, by simp [hnotification, hsubscription, htoken], rfl⟩),
        hheld⟩

/-- The provider is called for an attempt that was counted. -/
theorem send_holding (checkedAt calledAt : ℤ) :
    Holding row claimToken 0 { w with
      log := .sent row.notificationId row.subscriptionId checkedAt calledAt :: w.log } := by
  obtain ⟨d₀, hd₀, hheld₀⟩ := hsendable.1
  have hcount : ∀ key, sendCount key
      (.sent row.notificationId row.subscriptionId checkedAt calledAt :: w.log) =
        (if row.key = key then 1 else 0) + sendCount key w.log := fun _ => rfl
  have hrow : ∀ d ∈ w.tables.deliveries, row.key = d.key →
      sendCount d.key w.log + 1 ≤ d.attemptCount := by
    intro d hd hkey
    obtain rfl : d = d₀ :=
      eq_of_key_eq h.1.keys hd hd₀ (hkey.symm.trans (isHeld_sending hheld₀).1.symm)
    exact (h.2 d hd hheld₀).2.1
  have hle : ∀ d ∈ w.tables.deliveries, sendCount d.key
      (.sent row.notificationId row.subscriptionId checkedAt calledAt :: w.log) ≤
        d.attemptCount := by
    intro d hd
    have hsent := (h.1.rows d hd).sent
    rw [hcount]
    split
    · rename_i hkey
      have hone := hrow d hd hkey
      omega
    · omega
  refine ⟨⟨h.1.devices, h.1.ids, h.1.keys, h.1.known, fun d hd => ?_, h.1.idle, fun key => ?_⟩,
    fun d hd hheld => ?_⟩
  · have hold := h.1.rows d hd
    exact ⟨hle d hd, hold.most, hold.due, hold.lease⟩
  · show sendCount key (.sent row.notificationId row.subscriptionId checkedAt calledAt :: w.log) ≤
      maxAttempts
    by_cases hkey : row.key = key
    · have hsame : d₀.key = key := (isHeld_sending hheld₀).1.trans hkey
      exact hsame ▸ (hle d₀ hd₀).trans (h.1.rows d₀ hd₀).most
    · rw [hcount, if_neg hkey, Nat.zero_add]
      exact h.1.bounded key
  · obtain ⟨hattempts, -, hrest⟩ := h.2 d hd hheld
    exact ⟨hattempts, hle d hd, hrest⟩

/-- The boundaries allow the call. -/
theorem sendAllowed (hclock : checkedAt ≤ calledAt)
    (hcheck : isPast (sendDeadlines platform startedAt row).latestExpirySendStart checkedAt = false)
    (hcall : isPast (sendDeadlines platform startedAt row).sendDeadline calledAt = false) :
    SendAllowed platform w.tables row.notificationId row.subscriptionId checkedAt calledAt := by
  obtain ⟨⟨d, hd, hheld⟩, s, hs, hid, huser⟩ := hsendable
  obtain ⟨hkey, hsending, -⟩ := isHeld_sending hheld
  obtain ⟨-, -, htarget, hexpires⟩ := h.2 d hd hheld
  refine ⟨hclock, ⟨d, hd, hkey, hsending, s, hs, hid, htarget ▸ huser⟩,
    fun n hn hsame expiry hexpiry => ?_⟩
  rw [hexpires n hn hsame] at hexpiry
  simp only [sendDeadlines, SendDeadlines.latestExpirySendStart, SendDeadlines.sendDeadline, isPast,
    hexpiry, Option.map_some, Option.any_some, decide_eq_false_iff_not, not_le] at hcheck hcall
  omega

theorem sendClaim_keeps {payload : String} {device : SubscriptionCapability} :
    KeepsPush platform Anyhow (sendClaim (sendDeadlines platform startedAt row) row claimToken
      payload device) w := by
  refine keeps_clock fun beforeSendMs _ => ?_
  refine Prog.Keeps.bind
    ((releaseAtBoundary_keeps (h.tick _) beforeSendMs).mono fun boundary w₁ hnone => ?_)
  cases boundary with
  | some step => exact keeps_pure trivial
  | none =>
      obtain ⟨rfl, hcheck⟩ := hnone rfl
      refine keeps_transact trivial fun tables happly => ?_
      cases happly
      obtain ⟨h₂, hsendable₂⟩ := recordGeneration_holding h hsendable device.generation
      refine keeps_clock fun calledAt hclock => keeps_ite (fun _ => ?_) fun hcall => ?_
      · exact keeps_wait h₂ (fun _ _ _ hexec => hexec.2) fun outcome w₃ h₃ =>
          recordResult_keeps h₃.weaken device outcome.1 outcome.2
      · -- the provider is called in the same turn
        intro w₁ hbefore hinv r w₂ hexec
        obtain rfl := before_of_sync rfl hbefore
        cases hexec
        have hallowed : SendAllowed platform _ _ _ _ _ :=
          sendAllowed h₂ hsendable₂ hclock hcheck (Bool.eq_false_iff.mpr hcall)
        have h₃ := send_holding h₂ hsendable₂ beforeSendMs calledAt
        refine ⟨h₃.1, ⟨TableStep.refl _, .inr ⟨rfl, _, _, _, _, rfl, hallowed⟩⟩, ?_⟩
        exact keeps_wait h₃ (fun _ _ _ hexec => hexec.2) fun outcome w₃ h₃ =>
          recordResult_keeps h₃ device outcome.1 outcome.2

end

/-- A claim is released after a promise was rejected. -/
theorem failClaim_keeps (h : Holding row claimToken 1 w)
    {device : PushProg (Option SubscriptionIdentity)}
    (hdevice : ∀ w', KeepsPush platform (fun _ w'' => w'' = w') device w') :
    KeepsPush platform Anyhow (failClaim deadlines row claimToken device) w := by
  refine keeps_clock fun failedAtMs _ => ?_
  refine Prog.Keeps.bind
    ((releaseAtBoundary_keeps (h.tick _) failedAtMs).mono fun boundary w₁ hnone => ?_)
  cases boundary with
  | some step => exact keeps_pure trivial
  | none =>
      obtain ⟨rfl, -⟩ := hnone rfl
      refine keeps_isoText fun failedAt => Prog.Keeps.bind ((hdevice _).mono ?_)
      rintro current w₂ rfl
      exact keeps_transact (h.tick _).weaken.2 fun _ _ => keeps_pure trivial

/-- A device that is found. -/
theorem capability_sendable {device : SubscriptionCapability}
    (hdevice : capability row.subscriptionId row.targetUserId w.tables = some device) :
    ∃ s ∈ w.tables.subscriptions, s.id = row.subscriptionId ∧ s.userId = some row.targetUserId := by
  obtain ⟨s, hs, -⟩ := Option.map_eq_some_iff.mp hdevice
  have hboth := List.find?_some hs
  simp only [Bool.and_eq_true, decide_eq_true_eq] at hboth
  exact ⟨s, List.mem_of_find?_eq_some hs, hboth⟩

section

variable (h : Holding row claimToken 1 w)
include h

theorem authorizeClaim_keeps {payload : String} {current : SubscriptionIdentity} :
    KeepsPush platform Anyhow (authorizeClaim (sendDeadlines platform startedAt row) row claimToken
      payload current) w := by
  refine keeps_clock fun now _ => ?_
  refine keeps_wait (h.tick now) (fun _ _ _ hexec => hexec.2) fun authorized w₁ h₁ => ?_
  cases authorized with
  | none => exact failClaim_keeps h₁ fun w' => keeps_pure rfl
  | some authorized =>
      refine keeps_read rfl (fun _ _ hexec => hexec.2) fun owned howned => ?_
      refine keeps_ite (fun _ => keeps_pure trivial) fun hheld =>
        keeps_ite (fun _ => ?_) fun _ => ?_
      · exact keeps_clock fun nowMs _ => keeps_isoText fun now =>
          keeps_transact trivial fun _ _ => keeps_pure trivial
      · refine keeps_read rfl (fun _ _ hexec => hexec.2) fun device hdevice => ?_
        cases device with
        | none =>
            exact keeps_clock fun nowMs _ => keeps_isoText fun now =>
              keeps_transact trivial fun _ _ => keeps_pure trivial
        | some device =>
            have howned : ownsLease row claimToken w₁.tables = true := by
              rw [← howned.1]
              simpa using hheld
            exact sendClaim_keeps h₁
              ⟨List.any_eq_true.mp howned, capability_sendable hdevice.1.symm⟩

theorem checkClaim_keeps :
    KeepsPush deps.toPushPlatform Anyhow
      (checkClaim deps (sendDeadlines deps.toPushPlatform startedAt row) row claimToken now) w := by
  rw [checkClaim]
  split
  · exact keeps_transact trivial fun _ _ => keeps_pure trivial
  · refine keeps_ite (fun _ => ?_) fun _ => ?_
    · exact keeps_transact trivial fun _ _ => keeps_pure trivial
    · refine keeps_read rfl (fun _ _ hexec => hexec.2) fun current _ => ?_
      split
      · exact keeps_transact trivial fun _ _ => keeps_pure trivial
      · exact authorizeClaim_keeps h

theorem processClaim_keeps :
    KeepsPush deps.toPushPlatform Anyhow (processClaim deps startedAt row claimToken now) w := by
  refine keeps_clock fun boundaryMs _ => ?_
  refine Prog.Keeps.bind
    ((releaseAtBoundary_keeps (h.tick _) boundaryMs).mono fun boundary w₁ hnone => ?_)
  cases boundary with
  | some step => exact keeps_pure trivial
  | none =>
      obtain ⟨rfl, -⟩ := hnone rfl
      refine keeps_ite (fun _ => checkClaim_keeps (h.tick _)) fun _ => keeps_clock fun nowMs _ => ?_
      refine keeps_wait (h.tick _) (fun _ _ _ hexec => hexec.2) fun alarm w₂ h₂ => ?_
      cases alarm with
      | some _ => exact checkClaim_keeps h₂
      | none =>
          refine failClaim_keeps h₂ fun w' => ?_
          exact keeps_read rfl (fun _ _ hexec => hexec.2) fun current _ => keeps_pure rfl

end

/-- The loop, by induction on the claims that are left. -/
theorem processClaims_keeps (deps : PushDependencies) (startedAt : ℤ) (n : ℕ) :
    KeepsPush deps.toPushPlatform Anyhow (processClaims deps startedAt n) w := by
  induction n generalizing w with
  | zero => exact keeps_pure trivial
  | succ n ih =>
      refine keeps_clock fun t _ => keeps_ite (fun _ => keeps_pure trivial) fun _ => ?_
      refine keeps_clock fun nowMs _ => keeps_isoText fun now => ?_
      refine keeps_read rfl (fun _ _ hexec => hexec) fun claimToken _ => ?_
      refine keeps_claim fun row w₁ hholding => ?_
      cases row with
      | none => exact keeps_pure trivial
      | some row =>
          refine Prog.Keeps.bind
            ((processClaim_keeps (hholding row rfl)).mono fun step w₃ _ => ?_)
          cases step with
          | next => exact ih
          | stop => exact keeps_pure trivial

end Claim

/-- A notification is pending exactly as long as it has a delivery that is not over. -/
def Settled (tables : PushTables) : Prop :=
  ∀ n ∈ tables.notifications, n.state = .pending ↔
    ∃ d ∈ tables.deliveries, d.notificationId = n.id ∧ d.status.isActive = true

theorem settled_of_recovered (h : TablesOk log (recoverAndExpire now tables)) :
    Settled (recoverAndExpire now tables) := by
  intro n hn
  constructor
  · intro hstate
    have hactive := recoverAndExpire_pending now tables n hn hstate
    obtain ⟨d, hd, hboth⟩ := List.any_eq_true.mp hactive
    simp only [Bool.and_eq_true, decide_eq_true_eq] at hboth
    exact ⟨d, hd, hboth⟩
  · rintro ⟨d, hd, hid, hactive⟩
    by_contra hstate
    rw [h.idle n hn hstate d hd hid] at hactive
    cases hactive

/-- **A run keeps to the rules of the outbox**, whatever others do while it waits, and leaves no
notification pending without need. -/
theorem processPushOutbox_keeps (deps : PushDependencies) (w : PushWorld) :
    KeepsPush deps.toPushPlatform (fun _ w' => Settled w'.tables) (processPushOutbox deps) w := by
  refine keeps_clock fun startedAt _ => keeps_isoText fun now => keeps_isoText fun before => ?_
  refine keeps_transact trivial fun _ _ => ?_
  refine Prog.Keeps.bind ((processClaims_keeps deps startedAt batchSize).mono fun _ w₁ _ => ?_)
  refine keeps_clock fun nowMs _ => keeps_isoText fun now => ?_
  intro w₂ hbefore hinv r w₃ hexec
  obtain rfl := before_of_sync rfl hbefore
  obtain ⟨tables, happly, rfl⟩ := hexec
  cases happly
  obtain ⟨hinv₃, hstep⟩ := recoverAndExpire_keeps hinv now
  refine ⟨hinv₃, ⟨hstep, .inl rfl⟩, ?_⟩
  exact keeps_read rfl (fun _ _ hexec => hexec.2) fun _ _ =>
    keeps_pure (settled_of_recovered hinv₃)

/-! ### Sequences of runs -/

/-- The outbox, and the run that is under way. -/
abbrev PushSystem : Type := Solo PushOp PushOp.Answer (Option ℤ) PushWorld

/-- A run starts, takes a turn, ends or stops for ever, or others act while it waits. -/
abbrev PushTurn (deps : PushDependencies) : PushSystem → PushSystem → Prop :=
  SoloTurn (PushOp.Exec deps.toPushPlatform) PushOp.waits (PushWorld.Others deps.toPushPlatform)
    (· = processPushOutbox deps)

/-- What runs and others can bring about, from an outbox without notifications. -/
abbrev PushReachable (deps : PushDependencies) : PushSystem → Prop :=
  SoloReachable (PushOp.Exec deps.toPushPlatform) PushOp.waits
    (PushWorld.Others deps.toPushPlatform) (· = processPushOutbox deps) .empty

theorem tablesOk_empty : TablesOk [] .empty where
  devices := List.nodup_nil
  ids := List.nodup_nil
  keys := List.nodup_nil
  known _ h := absurd h List.not_mem_nil
  rows _ h := absurd h List.not_mem_nil
  idle _ h := absurd h List.not_mem_nil
  bounded _ := Nat.zero_le _

/-- A delivery that is over stays as it is in a transaction. -/
theorem over_of_step (h : TablesOk log tables) (hstep : TableStep tables tables')
    (hd : d ∈ tables.deliveries) (hover : d.status.isActive = false) (hd' : d' ∈ tables'.deliveries)
    (hkey : d'.key = d.key) : d' = d := by
  obtain ⟨d₀, hd₀, hkey₀, -, hfinal⟩ := hstep.rows d' hd'
  obtain rfl : d₀ = d := eq_of_key_eq h.keys hd₀ hd (hkey₀.trans hkey)
  exact hfinal hover

/-- … and when others act. -/
theorem over_of_others (h : TablesOk w.log w.tables) (hothers : PushWorld.Others platform w w')
    (hd : d ∈ w.tables.deliveries) (hd' : d' ∈ w'.tables.deliveries) (hkey : d'.key = d.key) :
    d' = d := by
  cases hothers with
  | enqueue input answer tables henqueue =>
      obtain ⟨hfresh, -, hdeliveries, -⟩ := enqueue_cases henqueue
      rw [hdeliveries] at hd'
      rcases List.mem_append.mp hd' with hd' | hd'
      · exact eq_of_key_eq h.keys hd' hd hkey
      · obtain ⟨n, hn, hid⟩ := h.known d hd
        have hnew : n.id = answer.1 :=
          hid.trans ((congrArg Prod.fst hkey).symm.trans (newDeliveries_pending hd').1)
        exact absurd hnew (hfresh n hn)
  | subscriptions subscriptions hnodup => exact eq_of_key_eq h.keys hd' hd hkey
  | deleteEmail emailId => exact eq_of_key_eq h.keys (mem_deleteWhere.mp hd').1 hd hkey
  | tick t ht => exact eq_of_key_eq h.keys hd' hd hkey

/-- Others do not call the provider. -/
theorem not_sent_of_others (hothers : PushWorld.Others platform w w') {subscriptionId : String}
    (hsent : w'.log = .sent notificationId subscriptionId checkedAt calledAt :: w.log) : False := by
  cases hothers with
  | enqueue input answer tables henqueue => cases (List.cons.inj hsent).1
  | subscriptions subscriptions hnodup => exact List.cons_ne_self _ _ hsent.symm
  | deleteEmail emailId => exact List.cons_ne_self _ _ hsent.symm
  | tick t ht => exact List.cons_ne_self _ _ hsent.symm

/-- **Push delivery is bounded and final.** Whatever sequence of runs and other actions has led
here, and wherever runs have stopped:

* the provider was called at most `maxAttempts` times for each delivery of a notification;
* no turn changes a delivery that is over;
* a turn that calls the provider does so for a delivery whose lease is held and whose
  subscription is still its user's, with a boundary check before the latest start, and before the
  deadline of the expiry;
* at the end of a run a notification is pending just when it has a delivery that is not over. -/
theorem push_bounded_and_final (deps : PushDependencies) {system : PushSystem}
    (h : PushReachable deps system) :
    (∀ notificationId subscriptionId,
      sendCount (notificationId, subscriptionId) system.state.log ≤ maxAttempts) ∧
    (∀ system', PushTurn deps system system' →
      (∀ d ∈ system.state.tables.deliveries, d.status.isActive = false →
        ∀ d' ∈ system'.state.tables.deliveries, d'.key = d.key → d' = d) ∧
      ∀ notificationId subscriptionId checkedAt calledAt,
        system'.state.log =
            .sent notificationId subscriptionId checkedAt calledAt :: system.state.log →
          SendAllowed deps.toPushPlatform system.state.tables notificationId subscriptionId
            checkedAt calledAt) ∧
    (∀ next, system.program = some (.done next) → ∀ n ∈ system.state.tables.notifications,
      n.state = .pending ↔ ∃ d ∈ system.state.tables.deliveries,
        d.notificationId = n.id ∧ d.status.isActive = true) := by
  have hothers : ∀ w w', (pushRules deps.toPushPlatform).Inv w →
      (pushRules deps.toPushPlatform).Others w w' → (pushRules deps.toPushPlatform).Inv w' :=
    fun w w' hinv hothers => others_keep hinv hothers
  have hstarts : ∀ w p, (pushRules deps.toPushPlatform).Inv w → p = processPushOutbox deps →
      KeepsPush deps.toPushPlatform (fun _ w' => Settled w'.tables) p w := by
    rintro w p - rfl
    exact processPushOutbox_keeps deps w
  have hempty : (pushRules deps.toPushPlatform).Inv .empty := tablesOk_empty
  have horderly : SoloOrderly (PushOp.Exec deps.toPushPlatform) (pushRules deps.toPushPlatform)
      (fun _ w' => Settled w'.tables) system := SoloReachable.keeps hothers hstarts hempty h
  have hinv : TablesOk system.state.log system.state.tables := horderly.inv
  refine ⟨fun notificationId subscriptionId => hinv.bounded _, fun system' hturn => ?_,
    fun next hdone => horderly.keeps _ hdone⟩
  obtain ⟨-, hsame | hstep | hothers⟩ := SoloTurn.keeps hothers hstarts hturn horderly
  · rw [hsame]
    exact ⟨fun d hd _ d' hd' hkey => eq_of_key_eq hinv.keys hd' hd hkey,
      fun _ _ _ _ hsent => absurd hsent.symm (List.cons_ne_self _ _)⟩
  · refine ⟨fun d hd hover d' hd' hkey => over_of_step hinv hstep.tables hd hover hd' hkey,
      fun _ _ _ _ hsent => ?_⟩
    rcases hstep.log with hlog | ⟨-, _, _, _, _, hlog, hallowed⟩
    · exact absurd (hsent.symm.trans hlog) (List.cons_ne_self _ _)
    · cases hsent.symm.trans hlog
      exact hallowed
  · exact ⟨fun d hd _ d' hd' hkey => over_of_others hinv hothers hd hd' hkey,
      fun _ _ _ _ hsent => (not_sent_of_others hothers hsent).elim⟩

/-! ### A run -/

/-- An answer to an operation, when the clock reads `clocks` from now on and all goes well. -/
def respond (platform : PushPlatform) :
    (op : PushOp) → PushWorld → List ℤ → Option (op.Answer × PushWorld × List ℤ)
  | .clock, _, [] => none
  | .clock, w, t :: clocks => if w.clock ≤ t then some (t, { w with clock := t }, clocks) else none
  | .createToken, w, clocks => some ("token", w, clocks)
  | .isoText t, w, clocks => (toISOString t).map fun text => (text, w, clocks)
  | .transact transaction, w, clocks =>
      (transaction.apply platform w.tables).map fun tables =>
        ((), { w with tables := tables }, clocks)
  | .claimNext now token, w, clocks =>
      (claimNext platform now token w.tables).map fun r => (r.1, { w with tables := r.2 }, clocks)
  | .ownsLease row token, w, clocks => some (ownsLease row token w.tables, w, clocks)
  | .identity subscriptionId, w, clocks => some (identity subscriptionId w.tables, w, clocks)
  | .capability subscriptionId targetUserId, w, clocks =>
      some (capability subscriptionId targetUserId w.tables, w, clocks)
  | .nextDueAt, w, clocks => some (nextDueAt platform w.tables, w, clocks)
  | .scheduleAlarmAt _ remainingMs, w, clocks =>
      some (if isOverdue remainingMs then none else some (), w, clocks)
  | .canAccess _ _ remainingMs, w, clocks =>
      some (if isOverdue remainingMs then none else some true, w, clocks)
  | .send row _ _ checkedAt calledAt, w, clocks =>
      some ((), { w with
        log := .sent row.notificationId row.subscriptionId checkedAt calledAt :: w.log }, clocks)
  | .sendOutcome called, w, clocks =>
      some (if called then (.ok, false) else (pushSendTimeoutResult, true), w, clocks)

theorem respond_exec {clocks clocks' : List ℤ} {r : op.Answer}
    (h : respond platform op w clocks = some (r, w', clocks')) : op.Exec platform w r w' := by
  cases op with
  | clock =>
      cases clocks with
      | nil => cases h
      | cons t clocks =>
          rw [respond] at h
          split at h
          · rename_i ht
            cases h
            exact ⟨ht, rfl⟩
          · cases h
  | createToken =>
      cases h
      exact rfl
  | isoText t =>
      obtain ⟨text, htext, h⟩ := Option.map_eq_some_iff.mp h
      cases h
      exact ⟨htext, rfl⟩
  | transact transaction =>
      obtain ⟨tables, happly, h⟩ := Option.map_eq_some_iff.mp h
      cases h
      exact ⟨tables, happly, rfl⟩
  | claimNext now token =>
      obtain ⟨claim, hclaim, h⟩ := Option.map_eq_some_iff.mp h
      cases h
      exact ⟨claim.2, hclaim, rfl⟩
  | send row device payload checkedAt calledAt =>
      cases h
      exact rfl
  | ownsLease row token =>
      cases h
      exact ⟨rfl, rfl⟩
  | identity subscriptionId =>
      cases h
      exact ⟨rfl, rfl⟩
  | capability subscriptionId targetUserId =>
      cases h
      exact ⟨rfl, rfl⟩
  | nextDueAt =>
      cases h
      exact ⟨rfl, rfl⟩
  | scheduleAlarmAt timestamp remainingMs =>
      cases h
      exact ⟨fun hoverdue => if_pos hoverdue, rfl⟩
  | canAccess userId mailboxId remainingMs =>
      cases h
      exact ⟨fun hoverdue => if_pos hoverdue, rfl⟩
  | sendOutcome called =>
      cases h
      refine ⟨?_, rfl⟩
      rintro rfl
      rfl

/-- One turn of a run. -/
def takeTurn (platform : PushPlatform) :
    PushProg (Option ℤ) × PushWorld × List ℤ → PushProg (Option ℤ) × PushWorld × List ℤ
  | (.done next, w, clocks) => (.done next, w, clocks)
  | (.call op next, w, clocks) =>
      match respond platform op w clocks with
      | some (r, w', clocks') => (next r, w', clocks')
      | none => (.call op next, w, clocks)

/-- The system of a run. -/
def systemOf (run : PushProg (Option ℤ) × PushWorld × List ℤ) : PushSystem := ⟨run.2.1, some run.1⟩

theorem takeTurn_turn (deps : PushDependencies) (run : PushProg (Option ℤ) × PushWorld × List ℤ) :
    PushTurn deps (systemOf run) (systemOf (takeTurn deps.toPushPlatform run)) ∨
      takeTurn deps.toPushPlatform run = run := by
  obtain ⟨p, w, clocks⟩ := run
  cases p with
  | done next => exact .inr rfl
  | call op next =>
      cases hrespond : respond deps.toPushPlatform op w clocks with
      | none => exact .inr (by simp [takeTurn, hrespond])
      | some answer =>
          obtain ⟨r, w', clocks'⟩ := answer
          refine .inl ?_
          simp only [takeTurn, hrespond]
          exact .turn w w' op next r (respond_exec hrespond)

theorem takeTurn_reachable {run : PushProg (Option ℤ) × PushWorld × List ℤ}
    (h : PushReachable deps (systemOf run)) (n : ℕ) :
    PushReachable deps (systemOf ((takeTurn deps.toPushPlatform)^[n] run)) := by
  induction n generalizing run with
  | zero => exact h
  | succ n ih =>
      rw [Function.iterate_succ_apply]
      rcases takeTurn_turn deps run with hturn | hsame
      · exact ih (h.tail hturn)
      · rw [hsame]
        exact ih h

/-- Dates are read as the language reads its own; there are no alarms. -/
def sampleDependencies : PushDependencies where
  dateParse := isoTimeValue
  toLowerCase := id
  readPayload payloadJson _ _ := some payloadJson
  afterSevenDays _ := none
  vapidConfigured := true
  schedulesAlarms := false

def sampleSubscriptions : List PushSubscriptionRow :=
  [⟨"device", some "user", 1, "endpoint", "key", "secret", none, none, none, none, 0⟩]

def sampleInput : EnqueuePushInput := ⟨"mail", "box", "payload", "1970-01-01T00:00:00.000Z"⟩

/-- A notification for one device was enqueued at the time 0, and expires at the time 300000. -/
def sampleWorld : PushWorld :=
  let tables := { PushTables.empty with subscriptions := sampleSubscriptions }
  match enqueuePushNotification sampleDependencies.toPushPlatform sampleInput tables with
  | some (answer, tables) => ⟨tables, 0, [.enqueued answer.1]⟩
  | none => .empty

/-- A run that starts 9 s before the expiry. The clock moves on between the last check and the
call. -/
def sampleRun (n : ℕ) : PushProg (Option ℤ) × PushWorld × List ℤ :=
  (takeTurn sampleDependencies.toPushPlatform)^[n] (processPushOutbox sampleDependencies,
    sampleWorld, [291000, 291000, 291000, 291000, 291000, 291499, 291500])

theorem sampleRun_reachable (n : ℕ) :
    PushReachable sampleDependencies (systemOf (sampleRun n)) := by
  refine takeTurn_reachable ?_ n
  have hsubscribed : PushReachable sampleDependencies
      ⟨⟨{ PushTables.empty with subscriptions := sampleSubscriptions }, 0, []⟩, none⟩ :=
    .single (.others _ _ none (.subscriptions .empty sampleSubscriptions (by decide)) nofun)
  have henqueued : PushReachable sampleDependencies ⟨sampleWorld, none⟩ := by
    rw [sampleWorld]
    dsimp only
    cases henqueue : enqueuePushNotification sampleDependencies.toPushPlatform sampleInput
        { PushTables.empty with subscriptions := sampleSubscriptions } with
    | none =>
        have hsome : (enqueuePushNotification sampleDependencies.toPushPlatform sampleInput
            { PushTables.empty with subscriptions := sampleSubscriptions }).isSome = true := by
          decide +kernel
        rw [henqueue] at hsome
        cases hsome
    | some r =>
        exact hsubscribed.tail
          (.others _ _ none (.enqueue _ sampleInput r.1 r.2 henqueue) nofun)
  exact henqueued.tail (.start _ _ rfl)

/-- **The provider may be called after the latest start**: the clock is read once more after the
last check of the boundaries. -/
theorem sent_after_latest_start : ∃ system system' : PushSystem,
    PushReachable sampleDependencies system ∧ PushTurn sampleDependencies system system' ∧
      ∃ n ∈ system.state.tables.notifications, ∃ subscriptionId checkedAt calledAt expiry,
        system'.state.log = .sent n.id subscriptionId checkedAt calledAt :: system.state.log ∧
          sampleDependencies.dateParse n.expiresAt = some expiry ∧
          expiry - finalizationBudgetMs - sendBudgetMs ≤ calledAt := by
  have hturn : PushTurn sampleDependencies (systemOf (sampleRun 18)) (systemOf (sampleRun 19)) := by
    have hnext : sampleRun 19 = takeTurn sampleDependencies.toPushPlatform (sampleRun 18) :=
      Function.iterate_succ_apply' _ _ _
    rw [hnext]
    refine (takeTurn_turn sampleDependencies (sampleRun 18)).resolve_right fun hsame => ?_
    rw [← hnext] at hsame
    have hlog : (sampleRun 19).2.1.log.length = (sampleRun 18).2.1.log.length := by rw [hsame]
    exact absurd hlog (by decide +kernel)
  refine ⟨_, _, sampleRun_reachable 18, hturn, ?_⟩
  have hsent : ∃ n ∈ (sampleRun 18).2.1.tables.notifications,
      (sampleRun 19).2.1.log = .sent n.id "device" 291499 291500 :: (sampleRun 18).2.1.log ∧
        isoTimeValue n.expiresAt = some 300000 := by
    decide +kernel
  obtain ⟨n, hn, hlog, hexpiry⟩ := hsent
  exact ⟨n, hn, "device", 291499, 291500, 300000, hlog, hexpiry, by decide⟩

theorem push_bounded_and_final_sample :
    sendCount ("push:mail", "device") (sampleRun 19).2.1.log = 1 ∧
      sendCount ("push:mail", "device") (sampleRun 19).2.1.log ≤ maxAttempts :=
  ⟨by decide +kernel,
    (push_bounded_and_final sampleDependencies (sampleRun_reachable 19)).1 "push:mail" "device"⟩

end MailPortal.Push
