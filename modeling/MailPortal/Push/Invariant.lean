import MailPortal.Push.Process

/-!
# The Invariant of the Push Outbox

A delivery is sent to no more often than it was claimed, and one that can be claimed has been
claimed less often than is allowed. A notification that is not pending has no delivery that is
not over. This module proves that every transaction keeps this, and that a delivery that is over
stays as it is.

Main results:

* `TablesOk.updateDeliveries`, `TablesOk.updateNotifications` and `TablesOk.deleteNotifications` :
  what a statement has to keep to.
* `PushTransaction.apply_keeps` : every transaction of a run keeps the invariant.
-/

namespace MailPortal.Push

open Table

variable {d : PushDeliveryRow} {row : DueDelivery} {token now : String} {platform : PushPlatform}
variable {sends : ℕ}

/-- How often the provider was called for a delivery, since its notification was enqueued. -/
def sendCount (key : String × String) : List PushEvent → ℕ
  | [] => 0
  | .enqueued notificationId :: log => if notificationId = key.1 then 0 else sendCount key log
  | .sent notificationId subscriptionId _ _ :: log =>
      (if (notificationId, subscriptionId) = key then 1 else 0) + sendCount key log

/-- The attempts of a delivery are counted, before the provider is called. -/
structure RowOk (sends : ℕ) (d : PushDeliveryRow) : Prop where
  sent : sends ≤ d.attemptCount
  most : d.attemptCount ≤ maxAttempts
  due : d.status = .pending ∨ d.status = .retrying → d.attemptCount < maxAttempts
  lease : d.status ≠ .sending → d.leaseToken = none

/-- **The invariant of the tables.** -/
structure TablesOk (log : List PushEvent) (tables : PushTables) : Prop where
  devices : (tables.subscriptions.map (·.id)).Nodup
  ids : (tables.notifications.map (·.id)).Nodup
  keys : (tables.deliveries.map PushDeliveryRow.key).Nodup
  known : ∀ d ∈ tables.deliveries, ∃ n ∈ tables.notifications, n.id = d.notificationId
  rows : ∀ d ∈ tables.deliveries, RowOk (sendCount d.key log) d
  idle : ∀ n ∈ tables.notifications, n.state ≠ .pending → ∀ d ∈ tables.deliveries,
    d.notificationId = n.id → d.status.isActive = false
  bounded : ∀ key, sendCount key log ≤ maxAttempts

/-- **What a transaction may do.** -/
structure TableStep (tables tables' : PushTables) : Prop where
  /-- A delivery that is over stays as it is, and none is new. -/
  rows : ∀ d' ∈ tables'.deliveries, ∃ d ∈ tables.deliveries, d.key = d'.key ∧
    d.targetUserId = d'.targetUserId ∧ (d.status.isActive = false → d' = d)
  notifications : ∀ n' ∈ tables'.notifications, ∃ n ∈ tables.notifications,
    n.id = n'.id ∧ n.expiresAt = n'.expiresAt

/-- The invariant is kept, by a step that is allowed. -/
abbrev Kept (log : List PushEvent) (tables tables' : PushTables) : Prop :=
  TablesOk log tables' ∧ TableStep tables tables'

variable {log : List PushEvent} {tables tables₁ tables' : PushTables}

theorem TableStep.refl (tables : PushTables) : TableStep tables tables where
  rows d hd := ⟨d, hd, rfl, rfl, fun _ => rfl⟩
  notifications n hn := ⟨n, hn, rfl, rfl⟩

theorem TableStep.trans (h₁ : TableStep tables tables₁) (h₂ : TableStep tables₁ tables') :
    TableStep tables tables' where
  rows d' hd' := by
    obtain ⟨d₁, hd₁, hkey₁, htarget₁, hover₁⟩ := h₂.rows d' hd'
    obtain ⟨d, hd, hkey, htarget, hover⟩ := h₁.rows d₁ hd₁
    refine ⟨d, hd, hkey.trans hkey₁, htarget.trans htarget₁, fun hfinal => ?_⟩
    have hsame := hover hfinal
    rw [hover₁ (hsame ▸ hfinal), hsame]
  notifications n' hn' := by
    obtain ⟨n₁, hn₁, hid₁, hexpires₁⟩ := h₂.notifications n' hn'
    obtain ⟨n, hn, hid, hexpires⟩ := h₁.notifications n₁ hn₁
    exact ⟨n, hn, hid.trans hid₁, hexpires.trans hexpires₁⟩

theorem Kept.trans (h₁ : TableStep tables tables₁) (h₂ : Kept log tables₁ tables') :
    Kept log tables tables' := ⟨h₂.1, h₁.trans h₂.2⟩

/-! ### Statements -/

section

variable (h : TablesOk log tables)
include h

/-- An update of deliveries that are not over. -/
theorem TablesOk.updateDeliveries {p : PushDeliveryRow → Bool}
    {f : PushDeliveryRow → PushDeliveryRow}
    (hactive : ∀ d ∈ tables.deliveries, p d = true → d.status.isActive = true)
    (hsame : ∀ d, (f d).key = d.key ∧ (f d).targetUserId = d.targetUserId)
    (hrow : ∀ d ∈ tables.deliveries, p d = true → RowOk (sendCount d.key log) d →
      RowOk (sendCount d.key log) (f d)) : Kept log tables (tables.updateDeliveries p f) := by
  have hfrom : ∀ d' ∈ updateWhere p f tables.deliveries, ∃ d ∈ tables.deliveries,
      d.key = d'.key ∧ d.targetUserId = d'.targetUserId ∧
        (d' = d ∨ p d = true ∧ d' = f d) := by
    intro d' hd'
    rcases mem_updateWhere.mp hd' with ⟨d, hd, hp, rfl⟩ | ⟨hd, -⟩
    · exact ⟨d, hd, (hsame d).1.symm, (hsame d).2.symm, .inr ⟨hp, rfl⟩⟩
    · exact ⟨d', hd, rfl, rfl, .inl rfl⟩
  refine ⟨⟨h.devices, h.ids, ?_, fun d' hd' => ?_, fun d' hd' =>
    ?_, fun n hn hstate d' hd' hid => ?_,
    h.bounded⟩, ⟨fun d' hd' => ?_, fun n hn => ⟨n, hn, rfl, rfl⟩⟩⟩
  · have hkeys : (updateWhere p f tables.deliveries).map PushDeliveryRow.key =
        tables.deliveries.map PushDeliveryRow.key := map_key_updateWhere fun d => (hsame d).1
    rw [PushTables.updateDeliveries, hkeys]
    exact h.keys
  · obtain ⟨d, hd, hkey, -⟩ := hfrom d' hd'
    obtain ⟨n, hn, hid⟩ := h.known d hd
    exact ⟨n, hn, hid.trans (congrArg Prod.fst hkey)⟩
  · obtain ⟨d, hd, hkey, -, rfl | ⟨hp, rfl⟩⟩ := hfrom d' hd'
    · exact h.rows d' hd
    · exact hkey ▸ hrow d hd hp (h.rows d hd)
  · obtain ⟨d, hd, hkey, -, rfl | ⟨hp, -⟩⟩ := hfrom d' hd'
    · exact h.idle n hn hstate d' hd hid
    · have hover := h.idle n hn hstate d hd ((congrArg Prod.fst hkey).trans hid)
      rw [hactive d hd hp] at hover
      cases hover
  · obtain ⟨d, hd, hkey, htarget, rfl | ⟨hp, rfl⟩⟩ := hfrom d' hd'
    · exact ⟨d', hd, rfl, rfl, fun _ => rfl⟩
    · refine ⟨d, hd, hkey, htarget, fun hover => ?_⟩
      rw [hactive d hd hp] at hover
      cases hover

/-- An update of notifications, which are not left pending without need. -/
theorem TablesOk.updateNotifications {p : PushNotificationRow → Bool}
    {f : PushNotificationRow → PushNotificationRow}
    (hsame : ∀ n, (f n).id = n.id ∧ (f n).expiresAt = n.expiresAt)
    (hidle : ∀ n ∈ tables.notifications, p n = true → ∀ d ∈ tables.deliveries,
      d.notificationId = n.id → d.status.isActive = false) :
    Kept log tables (tables.updateNotifications p f) := by
  have hids : (updateWhere p f tables.notifications).map (·.id) =
      tables.notifications.map (·.id) := map_key_updateWhere fun n => (hsame n).1
  have hfrom : ∀ n' ∈ updateWhere p f tables.notifications, ∃ n ∈ tables.notifications,
      n.id = n'.id ∧ n.expiresAt = n'.expiresAt ∧ (n' = n ∨ p n = true) := by
    intro n' hn'
    rcases mem_updateWhere.mp hn' with ⟨n, hn, hp, rfl⟩ | ⟨hn, -⟩
    · exact ⟨n, hn, (hsame n).1.symm, (hsame n).2.symm, .inr hp⟩
    · exact ⟨n', hn, rfl, rfl, .inl rfl⟩
  refine ⟨⟨h.devices, ?_, h.keys, fun d hd => ?_, h.rows, fun n' hn' hstate d hd hid => ?_,
    h.bounded⟩, ⟨fun d hd => ⟨d, hd, rfl, rfl, fun _ => rfl⟩, fun n' hn' => ?_⟩⟩
  · rw [PushTables.updateNotifications, hids]
    exact h.ids
  · obtain ⟨n, hn, hid⟩ := h.known d hd
    have hmem : n.id ∈ (updateWhere p f tables.notifications).map (·.id) :=
      hids ▸ List.mem_map.mpr ⟨n, hn, rfl⟩
    obtain ⟨n', hn', hid'⟩ := List.mem_map.mp hmem
    exact ⟨n', hn', hid'.trans hid⟩
  · obtain ⟨n, hn, hid', -, rfl | hp⟩ := hfrom n' hn'
    · exact h.idle n' hn hstate d hd hid
    · exact hidle n hn hp d hd (hid.trans hid'.symm)
  · obtain ⟨n, hn, hid, hexpires, -⟩ := hfrom n' hn'
    exact ⟨n, hn, hid, hexpires⟩

/-- Changes of subscriptions do not matter. -/
theorem TablesOk.setSubscriptions {subscriptions : List PushSubscriptionRow}
    (hnodup : (subscriptions.map (·.id)).Nodup) :
    Kept log tables { tables with subscriptions := subscriptions } :=
  ⟨⟨hnodup, h.ids, h.keys, h.known, h.rows, h.idle, h.bounded⟩,
    fun d hd => ⟨d, hd, rfl, rfl, fun _ => rfl⟩, fun n hn => ⟨n, hn, rfl, rfl⟩⟩

theorem TablesOk.updateSubscriptions {p : PushSubscriptionRow → Bool}
    {f : PushSubscriptionRow → PushSubscriptionRow} (hsame : ∀ s, (f s).id = s.id) :
    Kept log tables (tables.updateSubscriptions p f) := by
  have hids : (updateWhere p f tables.subscriptions).map (·.id) =
      tables.subscriptions.map (·.id) := map_key_updateWhere hsame
  exact h.setSubscriptions (hids ▸ h.devices)

theorem TablesOk.deleteSubscriptions (p : PushSubscriptionRow → Bool) :
    Kept log tables (tables.deleteSubscriptions p) :=
  h.setSubscriptions (nodup_deleteWhere h.devices)

/-- Notifications are deleted with their deliveries. -/
theorem TablesOk.deleteNotifications (p : PushNotificationRow → Bool) :
    Kept log tables (tables.deleteNotifications p) := by
  refine ⟨⟨h.devices, nodup_deleteWhere h.ids, nodup_deleteWhere h.keys, fun d hd => ?_,
    fun d hd => h.rows d (mem_deleteWhere.mp hd).1, fun n hn hstate d hd hid => ?_, h.bounded⟩,
    ⟨fun d hd => ⟨d, (mem_deleteWhere.mp hd).1, rfl, rfl, fun _ => rfl⟩,
      fun n hn => ⟨n, (mem_deleteWhere.mp hn).1, rfl, rfl⟩⟩⟩
  · obtain ⟨hd, hkept⟩ := mem_deleteWhere.mp hd
    obtain ⟨n, hn, hid⟩ := h.known d hd
    have hp : p n = false := by
      rw [List.any_eq_false] at hkept
      have hno := hkept n hn
      simpa [hid] using hno
    exact ⟨n, mem_deleteWhere.mpr ⟨hn, hp⟩, hid⟩
  · exact h.idle n (mem_deleteWhere.mp hn).1 hstate d (mem_deleteWhere.mp hd).1 hid

end

/-! ### Rows -/

/-- A delivery that is over has no lease, and keeps its attempts. -/
theorem RowOk.over {d' : PushDeliveryRow} (h : RowOk sends d)
    (hcount : d'.attemptCount = d.attemptCount) (hlease : d'.leaseToken = none)
    (hstatus : d'.status.isActive = false) : RowOk sends d' where
  sent := hcount ▸ h.sent
  most := hcount ▸ h.most
  due hdue := by
    rcases hdue with hdue | hdue <;> rw [hdue] at hstatus <;> cases hstatus
  lease _ := hlease

/-- A delivery that is to be tried again was not tried too often. -/
theorem RowOk.retried (h : RowOk sends d) (hcount : d.attemptCount < maxAttempts)
    (nextAttemptAt now : String) (reason : PushOutboxSafeReason) :
    RowOk sends (d.retried nextAttemptAt now reason) where
  sent := h.sent
  most := h.most
  due _ := hcount
  lease _ := rfl

theorem isActive_of_sending (h : d.status = .sending) : d.status.isActive = true := by
  rw [h]
  rfl

theorem isHeld_sending (h : isHeld row token d = true) :
    d.key = row.key ∧ d.status = .sending ∧ d.leaseToken = some token := by
  simp only [isHeld, Bool.and_eq_true, decide_eq_true_eq] at h
  obtain ⟨⟨⟨hnotification, hsubscription⟩, hstatus⟩, htoken⟩ := h
  exact ⟨Prod.ext hnotification hsubscription, hstatus, htoken⟩

theorem isHeld_active (h : isHeld row token d = true) : d.status.isActive = true :=
  isActive_of_sending (isHeld_sending h).2.1

/-! ### Recovery -/

theorem hasActive_eq_false {notificationId : String} :
    tables.hasActive notificationId = false ↔ ∀ d ∈ tables.deliveries,
      d.notificationId = notificationId → d.status.isActive = false := by
  rw [PushTables.hasActive, List.any_eq_false]
  refine forall₂_congr fun d _ => ?_
  simp

theorem recoverLeases_keeps (h : TablesOk log tables) (now : String) :
    Kept log tables (recoverLeases now tables) := by
  obtain ⟨h₁, hstep₁⟩ := h.updateDeliveries
    (p := fun d => d.status = .sending && d.leaseOver now && maxAttempts ≤ d.attemptCount)
    (f := (·.settled now .attemptsExhausted))
    (fun d _ hp => by
      simp only [Bool.and_eq_true, decide_eq_true_eq] at hp
      exact isActive_of_sending hp.1.1)
    (fun d => ⟨rfl, rfl⟩) (fun d _ _ hrow => hrow.over rfl rfl rfl)
  refine Kept.trans hstep₁ (h₁.updateDeliveries (fun d _ hp => ?_) (fun d => ⟨rfl, rfl⟩)
    fun d _ hp hrow => ?_)
  · simp only [Bool.and_eq_true, decide_eq_true_eq] at hp
    exact isActive_of_sending hp.1.1
  · simp only [Bool.and_eq_true, decide_eq_true_eq] at hp
    exact hrow.retried hp.2 now now .temporaryIssue

theorem expireDue_keeps (h : TablesOk log tables) (now : String) :
    Kept log tables (expireDue now tables) := by
  obtain ⟨h₁, hstep₁⟩ := h.updateDeliveries
    (p := fun d => d.status.isActive && tables.hasExpired now d) (f := (·.settled now .expired))
    (fun d _ hp => (Bool.and_eq_true_iff.mp hp).1)
    (fun d => ⟨rfl, rfl⟩) (fun d _ _ hrow => hrow.over rfl rfl rfl)
  refine Kept.trans hstep₁ (h₁.updateNotifications (fun n => ⟨rfl, rfl⟩)
    fun n hn hp d hd hid => ?_)
  -- what has expired has just been settled
  have hexpired : n.expiresAt ≤ now := by
    simp only [Bool.and_eq_true, decide_eq_true_eq] at hp
    exact hp.2
  rcases mem_updateWhere.mp hd with ⟨d₀, -, -, rfl⟩ | ⟨-, hkept⟩
  · rfl
  · have hany : tables.hasExpired now d = true :=
      List.any_eq_true.mpr ⟨n, hn, by simp [hid, hexpired]⟩
    rw [hany, Bool.and_true] at hkept
    exact hkept

theorem completeIdle_keeps (h : TablesOk log tables) (now : String) :
    Kept log tables (completeIdle now tables) := by
  refine h.updateNotifications (fun n => ⟨rfl, rfl⟩) fun n _ hp => ?_
  simp only [Bool.and_eq_true, Bool.not_eq_true'] at hp
  exact hasActive_eq_false.mp hp.2

theorem recoverAndExpire_keeps (h : TablesOk log tables) (now : String) :
    Kept log tables (recoverAndExpire now tables) := by
  obtain ⟨h₁, hstep₁⟩ : Kept log tables (markExpiredDevices now tables) :=
    h.updateSubscriptions fun s => rfl
  obtain ⟨h₂, hstep₂⟩ := recoverLeases_keeps h₁ now
  obtain ⟨h₃, hstep₃⟩ := expireDue_keeps h₂ now
  obtain ⟨h₄, hstep₄⟩ := completeIdle_keeps h₃ now
  exact ⟨h₄, ((hstep₁.trans hstep₂).trans hstep₃).trans hstep₄⟩

/-- **After recovery a pending notification has a delivery that is not over.** -/
theorem recoverAndExpire_pending (now : String) (tables : PushTables) :
    ∀ n ∈ (recoverAndExpire now tables).notifications, n.state = .pending →
      (recoverAndExpire now tables).hasActive n.id = true := by
  intro n hn hstate
  rw [recoverAndExpire] at hn ⊢
  generalize expireDue now (recoverLeases now (markExpiredDevices now tables)) = tables₃ at hn ⊢
  rcases mem_updateWhere.mp hn with ⟨n₀, -, -, rfl⟩ | ⟨-, hkept⟩
  · cases hstate
  · have hactive : tables₃.hasActive n.id = true := by simpa [hstate] using hkept
    exact hactive

theorem prune_keeps (h : TablesOk log tables) (before : String) :
    Kept log tables (prune before tables) := h.deleteNotifications _

/-! ### Claims -/

/-- What is due is claimed for one more attempt. -/
theorem claimNext_keeps {row : Option DueDelivery} (h : TablesOk log tables)
    (hclaim : claimNext platform now token tables = some (row, tables')) :
    Kept log tables tables' := by
  rw [claimNext] at hclaim
  split at hclaim
  · cases hclaim
    exact ⟨h, .refl tables⟩
  · obtain ⟨nowMs, -, hclaim⟩ := Option.bind_eq_some_iff.mp hclaim
    obtain ⟨leaseExpiresAt, -, hclaim⟩ := Option.bind_eq_some_iff.mp hclaim
    cases hclaim
    refine h.updateDeliveries (fun d _ hp => ?_) (fun d => ⟨rfl, rfl⟩) fun d _ hp hrow => ?_
    · simp only [Bool.and_eq_true, Bool.or_eq_true, decide_eq_true_eq] at hp
      rcases hp.2 with hstatus | hstatus <;> rw [hstatus] <;> rfl
    · simp only [Bool.and_eq_true, Bool.or_eq_true, decide_eq_true_eq] at hp
      refine ⟨Nat.le_succ_of_le hrow.sent, hrow.due hp.2, fun hdue => ?_,
        fun hstatus => absurd rfl hstatus⟩
      rcases hdue with hdue | hdue <;> cases hdue

/-- **What a run knows of its claim.** While it holds the lease, the attempts are those of the
claim, and `unsent` of them have not reached the provider. -/
def Claimed (log : List PushEvent) (tables : PushTables) (row : DueDelivery) (token : String)
    (unsent : ℕ) : Prop :=
  ∀ d ∈ tables.deliveries, isHeld row token d = true →
    d.attemptCount = row.attemptCount ∧ sendCount d.key log + unsent ≤ d.attemptCount ∧
      d.targetUserId = row.targetUserId ∧
      ∀ n ∈ tables.notifications, n.id = row.notificationId → n.expiresAt = row.expiresAt

/-- What is due is in the tables. -/
theorem nextDue_mem {n : PushNotificationRow} (h : nextDue now tables = some (d, n)) :
    d ∈ tables.deliveries ∧ n ∈ tables.notifications ∧ n.id = d.notificationId ∧
      (d.status = .pending ∨ d.status = .retrying) := by
  obtain ⟨d₀, hd, hn⟩ := Option.bind_eq_some_iff.mp h
  obtain ⟨n₀, hn, heq⟩ := Option.map_eq_some_iff.mp hn
  cases heq
  have hmem := (List.perm_insertionSort _ _).mem_iff.mp (List.mem_of_mem_head? hd)
  obtain ⟨hmem, hdue⟩ := List.mem_filter.mp hmem
  have hopen := List.find?_some hn
  simp only [Bool.and_eq_true, Bool.or_eq_true, decide_eq_true_eq] at hdue hopen
  exact ⟨hmem, List.mem_of_find?_eq_some hn, hopen.1.1, hdue.1.1⟩

section

variable (h : TablesOk log tables)
include h

theorem claimNext_claimed
    (hclaim : claimNext platform now token tables = some (some row, tables')) :
    Claimed log tables' row token 1 := by
  rw [claimNext] at hclaim
  split at hclaim
  · cases hclaim
  · rename_i d n hdue
    obtain ⟨hd, hn, hid, hstatus⟩ := nextDue_mem hdue
    obtain ⟨nowMs, -, hclaim⟩ := Option.bind_eq_some_iff.mp hclaim
    obtain ⟨leaseExpiresAt, -, hclaim⟩ := Option.bind_eq_some_iff.mp hclaim
    cases hclaim
    intro d' hd' hheld
    obtain ⟨hkey, hsending, -⟩ := isHeld_sending hheld
    rcases mem_updateWhere.mp hd' with ⟨d₀, hd₀, -, rfl⟩ | ⟨hd', -⟩
    · obtain rfl : d₀ = d := eq_of_key_eq h.keys hd₀ hd hkey
      refine ⟨rfl, Nat.succ_le_succ (h.rows d₀ hd₀).sent, rfl, fun n' hn' hid' => ?_⟩
      obtain rfl : n' = n := eq_of_key_eq h.ids hn' hn (hid'.trans hid.symm)
      rfl
    · obtain rfl : d' = d := eq_of_key_eq h.keys hd' hd hkey
      rcases hstatus with hstatus | hstatus <;> rw [hstatus] at hsending <;> cases hsending

/-! ### Transactions -/

theorem completeNotification_keeps (notificationId now : String) :
    Kept log tables (completeNotification notificationId now tables) := by
  rw [completeNotification]
  split
  · exact ⟨h, .refl tables⟩
  · rename_i hactive
    refine h.updateNotifications (fun n => ⟨rfl, rfl⟩) fun n _ hp => ?_
    simp only [Bool.and_eq_true, decide_eq_true_eq] at hp
    rw [hp.1]
    exact hasActive_eq_false.mp (Bool.eq_false_iff.mpr hactive)

theorem expireNotification_keeps (notificationId now : String) :
    Kept log tables (expireNotification notificationId now tables) := by
  obtain ⟨h₁, hstep₁⟩ : Kept log tables (tables.updateSubscriptions
      (fun s => tables.deliveries.any fun d => d.notificationId = notificationId &&
        d.subscriptionId = s.id && some d.targetUserId = s.userId && d.status.isActive)
      (·.failed now .expired)) := h.updateSubscriptions fun s => rfl
  obtain ⟨h₂, hstep₂⟩ := h₁.updateDeliveries
    (p := fun d => d.notificationId = notificationId && d.status.isActive)
    (f := (·.settled now .expired)) (fun d _ hp => (Bool.and_eq_true_iff.mp hp).2)
    (fun d => ⟨rfl, rfl⟩) (fun d _ _ hrow => hrow.over rfl rfl rfl)
  refine Kept.trans (hstep₁.trans hstep₂) (h₂.updateNotifications (fun n => ⟨rfl, rfl⟩)
    fun n _ hp d hd hid => ?_)
  simp only [Bool.and_eq_true, decide_eq_true_eq] at hp
  rcases mem_updateWhere.mp hd with ⟨d₀, -, -, rfl⟩ | ⟨-, hkept⟩
  · rfl
  · simpa [hid, hp.1] using hkept

theorem terminal_keeps (row : DueDelivery) (token now : String) (reason : PushOutboxSafeReason)
    (httpStatus : Option ℤ) :
    Kept log tables (terminal row token now reason httpStatus tables) := by
  obtain ⟨h₁, hstep₁⟩ := h.updateDeliveries (p := isHeld row token)
    (f := fun d => { d.settled now reason with lastHttpStatus := httpStatus })
    (fun d _ hp => isHeld_active hp) (fun d => ⟨rfl, rfl⟩) (fun d _ _ hrow => hrow.over rfl rfl rfl)
  exact Kept.trans hstep₁ (completeNotification_keeps h₁ row.notificationId now)

theorem deferClaim_keeps (hclaimed : Claimed log tables row token 1) (now : String) :
    Kept log tables (deferClaim row token now tables) := by
  refine h.updateDeliveries (fun d _ hp => isHeld_active hp) (fun d => ⟨rfl, rfl⟩)
    fun d hd hp hrow => ?_
  -- the attempt is given back, and the provider was not called for it
  obtain ⟨-, hsent, -⟩ := hclaimed d hd hp
  have hmost := hrow.most
  refine ⟨?_, ?_, fun _ => ?_, fun _ => rfl⟩ <;> dsimp only <;> omega

theorem retry_keeps (hclaimed : Claimed log tables row token 0) {nowMs : ℤ}
    {reason : PushOutboxSafeReason}
    (hretry : retry platform row token nowMs reason tables = some tables') :
    Kept log tables tables' := by
  obtain ⟨now, -, hretry⟩ := Option.bind_eq_some_iff.mp hretry
  split at hretry
  · cases hretry
    exact terminal_keeps h row token now _ none
  · rename_i hcan
    obtain ⟨delay, -, hretry⟩ := Option.bind_eq_some_iff.mp hretry
    obtain ⟨expiry, -, hretry⟩ := Option.bind_eq_some_iff.mp hretry
    obtain ⟨nextAttemptAt, -, hretry⟩ := Option.bind_eq_some_iff.mp hretry
    cases hretry
    have hcount : row.attemptCount < maxAttempts := by
      simp only [Bool.or_eq_true, decide_eq_true_eq, not_or] at hcan
      omega
    refine h.updateDeliveries (fun d _ hp => isHeld_active hp) (fun d => ⟨rfl, rfl⟩)
      fun d hd hp hrow => hrow.retried ?_ nextAttemptAt now reason
    exact (hclaimed d hd hp).1 ▸ hcount

theorem accept_keeps (row : DueDelivery) (token finishedAt : String)
    (device : SubscriptionCapability) :
    Kept log tables (accept row token finishedAt device tables) := by
  obtain ⟨h₁, hstep₁⟩ := h.updateDeliveries (p := isHeld row token)
    (f := fun d => { d with
      status := .accepted
      acceptedAt := some finishedAt
      updatedAt := finishedAt
      lastReason := none
      lastHttpStatus := none
      leaseToken := none
      leaseExpiresAt := none })
    (fun d _ hp => isHeld_active hp) (fun d => ⟨rfl, rfl⟩) (fun d _ _ hrow => hrow.over rfl rfl rfl)
  obtain ⟨h₂, hstep₂⟩ := h₁.updateSubscriptions (p := device.isOf) (f := fun s => { s with
    lastPushAttemptAt := some finishedAt
    lastPushAcceptedAt := some finishedAt
    lastPushFailureAt := none
    lastPushFailureReason := none
    consecutivePushFailures := 0 }) fun s => rfl
  exact Kept.trans (hstep₁.trans hstep₂)
    (completeNotification_keeps h₂ row.notificationId finishedAt)

/-- A lease belongs to a delivery that is being sent. -/
theorem recordGeneration_keeps (row : DueDelivery) (token : String) (generation : ℤ) :
    Kept log tables (recordGeneration row token generation tables) := by
  refine h.updateDeliveries (fun d hd hp => ?_) (fun d => ⟨rfl, rfl⟩) fun d _ _ hrow =>
    ⟨hrow.sent, hrow.most, hrow.due, hrow.lease⟩
  simp only [Bool.and_eq_true, decide_eq_true_eq] at hp
  by_contra hover
  have hfree := (h.rows d hd).lease fun hsending => hover (isActive_of_sending hsending)
  rw [hp.2] at hfree
  cases hfree

end

/-- What a transaction relies on. -/
def PushTransaction.Allowed (log : List PushEvent) (tables : PushTables) : PushTransaction → Prop
  | .deferClaim row token _ => Claimed log tables row token 1
  | .unavailable _ row token _ _ => Claimed log tables row token 0
  | .retry row token _ => Claimed log tables row token 0
  | .retryAfterFailure row token _ _ _ => Claimed log tables row token 0
  | _ => True

/-- **Every transaction of a run keeps the invariant.** -/
theorem PushTransaction.apply_keeps {transaction : PushTransaction} (h : TablesOk log tables)
    (hallowed : transaction.Allowed log tables)
    (happly : transaction.apply platform tables = some tables') : Kept log tables tables' := by
  cases transaction with
  | recoverAndPrune now before =>
      cases happly
      obtain ⟨h₁, hstep₁⟩ := recoverAndExpire_keeps h now
      exact Kept.trans hstep₁ (prune_keeps h₁ before)
  | recoverAndExpire now =>
      cases happly
      exact recoverAndExpire_keeps h now
  | expireNotification notificationId now =>
      cases happly
      exact expireNotification_keeps h notificationId now
  | deferClaim row token now =>
      cases happly
      exact deferClaim_keeps h hallowed now
  | terminal row token now reason =>
      cases happly
      exact terminal_keeps h row token now reason none
  | unavailable device row token failedAtMs failedAt =>
      cases device with
      | none => exact retry_keeps h hallowed happly
      | some device =>
          obtain ⟨h₁, hstep₁⟩ : Kept log tables
              (updateDeviceFailureByIdentity device failedAt .serviceUnavailable tables) :=
            h.updateSubscriptions fun _ => rfl
          exact Kept.trans hstep₁ (retry_keeps h₁ hallowed happly)
  | revoke row token now device =>
      cases happly
      obtain ⟨h₁, hstep₁⟩ := terminal_keeps h row token now .authorizationRevoked none
      exact Kept.trans hstep₁ (h₁.deleteSubscriptions device.isOf)
  | recordGeneration row token generation =>
      cases happly
      exact recordGeneration_keeps h row token generation
  | retry row token nowMs => exact retry_keeps h hallowed happly
  | retryAfterFailure row token device finishedAt nowMs =>
      obtain ⟨h₁, hstep₁⟩ : Kept log tables
          (updateDeviceFailure device finishedAt .temporaryIssue tables) :=
        h.updateSubscriptions fun _ => rfl
      exact Kept.trans hstep₁ (retry_keeps h₁ hallowed happly)
  | accept row token finishedAt device =>
      cases happly
      exact accept_keeps h row token finishedAt device
  | forget row token finishedAt device statusCode =>
      cases happly
      obtain ⟨h₁, hstep₁⟩ :=
        terminal_keeps h row token finishedAt .permissionRevoked (some statusCode)
      exact Kept.trans hstep₁ (h₁.deleteSubscriptions device.isOf)
  | reject row token finishedAt device reason statusCode =>
      cases happly
      obtain ⟨h₁, hstep₁⟩ := terminal_keeps h row token finishedAt reason (some statusCode)
      exact Kept.trans hstep₁ (h₁.updateSubscriptions fun _ => rfl)

end MailPortal.Push
