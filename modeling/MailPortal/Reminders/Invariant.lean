import MailPortal.Reminders.Service

/-!
# What the Reminder Tables Keep

`Consistent` is what holds of the tables between any two statements: keys are unique, one reminder
of a conversation is active at most, versions count the updates, and every operation is recorded
with the update that it made and the reminder as it was right after it.

`Later` is what any statement may do: a reminder that is not active stays as it is, and one that
changes gets a greater version, so that a reminder that is found again with the same version is the
same.

Main results:

* `Consistent.updateReminders`, `Consistent.insertReminder`, `Consistent.applyBatch` : the writes
  keep the tables consistent.
-/

namespace MailPortal.Reminders

open Table ReminderStoreOperation

variable {row row' : ReminderRow}
variable {input : ReminderStoreOperation} {answer : Except DatabaseError Bool}

/-! ### Rows over time -/

/-- The row is the next version of another. -/
structure ReminderRow.Follows (row row' : ReminderRow) : Prop where
  id : row'.id = row.id
  createKey : row'.createKey = row.createKey
  conversation : row'.conversation = row.conversation
  fingerprint : row'.createFingerprint = row.createFingerprint
  result : row'.createResult = row.createResult
  version : row'.version = row.version + 1

/-- The next version belongs to the same user and mailbox. -/
theorem ReminderRow.Follows.belongs (h : row.Follows row') :
    row'.ownerUserId = row.ownerUserId ∧ row'.mailboxAddress = row.mailboxAddress := by
  have hconversation := h.conversation
  simp only [ReminderRow.conversation, Prod.mk.injEq] at hconversation
  exact ⟨hconversation.1, hconversation.2.1⟩

/-- What a row may be later: the same, or another version if it was active. -/
def ReminderRow.Becomes (row row' : ReminderRow) : Prop :=
  row' = row ∨ row.isActive = true ∧ row.version < row'.version ∧ row'.id = row.id ∧
    row'.createKey = row.createKey ∧ row'.createFingerprint = row.createFingerprint ∧
    row'.createResult = row.createResult

theorem ReminderRow.Becomes.refl (row : ReminderRow) : row.Becomes row := .inl rfl

theorem ReminderRow.Becomes.trans {row'' : ReminderRow} (h : row.Becomes row')
    (h' : row'.Becomes row'') : row.Becomes row'' := by
  obtain rfl | ⟨hactive, hlt, hid, hkey, hprint, hresult⟩ := h
  · exact h'
  · obtain rfl | ⟨-, hlt', hid', hkey', hprint', hresult'⟩ := h'
    · exact .inr ⟨hactive, hlt, hid, hkey, hprint, hresult⟩
    · exact .inr ⟨hactive, hlt.trans hlt', hid'.trans hid, hkey'.trans hkey,
        hprint'.trans hprint, hresult'.trans hresult⟩

theorem ReminderRow.Follows.becomes (h : row.Follows row') (hactive : row.isActive = true) :
    row.Becomes row' :=
  .inr ⟨hactive, by rw [h.version]; exact Nat.lt_succ_self _, h.id, h.createKey, h.fingerprint,
    h.result⟩

/-- What is created stays. -/
theorem ReminderRow.Becomes.created (h : row.Becomes row') :
    row'.id = row.id ∧ row'.createKey = row.createKey ∧
      row'.createFingerprint = row.createFingerprint ∧ row'.createResult = row.createResult := by
  obtain rfl | ⟨-, -, hid, hkey, hprint, hresult⟩ := h
  · exact ⟨rfl, rfl, rfl, rfl⟩
  · exact ⟨hid, hkey, hprint, hresult⟩

/-- The same version of a row is the same row. -/
theorem ReminderRow.Becomes.eq_of_version (h : row.Becomes row')
    (hversion : row'.version = row.version) : row' = row := by
  obtain rfl | ⟨-, hlt, -⟩ := h
  · rfl
  · omega

/-- What others may do between two statements. -/
structure Later (w w' : World) : Prop where
  reminders : ∀ row ∈ w.reminders, ∃ row' ∈ w'.reminders, row.Becomes row'
  operations : ∀ operation ∈ w.operations, operation ∈ w'.operations
  refused : ∀ pair ∈ w.refused, pair ∈ w'.refused
  revoked : ∀ pair ∈ w.revoked, pair ∈ w'.revoked

theorem Later.refl (w : World) : Later w w :=
  ⟨fun row hrow => ⟨row, hrow, .refl row⟩, fun _ h => h, fun _ h => h, fun _ h => h⟩

theorem Later.trans {w w' w'' : World} (h : Later w w') (h' : Later w' w'') : Later w w'' where
  reminders row hrow := by
    obtain ⟨row', hrow', hbecomes⟩ := h.reminders row hrow
    obtain ⟨row'', hrow'', hbecomes'⟩ := h'.reminders row' hrow'
    exact ⟨row'', hrow'', hbecomes.trans hbecomes'⟩
  operations operation hmem := h'.operations operation (h.operations operation hmem)
  refused pair hmem := h'.refused pair (h.refused pair hmem)
  revoked pair hmem := h'.revoked pair (h.revoked pair hmem)

/-! ### Dates -/

/-- What the service relies on: a date that can be read is printed as a text that reads as the same
date. -/
structure PrintsDates (host : HostRuntime) : Prop where
  print : ∀ text t, host.dateParse text = some t →
    ∃ printed, toISOString t = some printed ∧ host.dateParse printed = some t

/-- The row can be shown, and its time reads back. -/
def ReminderRow.Readable (host : HostRuntime) (row : ReminderRow) : Prop :=
  ∃ reminder, fromRow row = some reminder ∧ host.dateParse reminder.remindAt = some row.remindAt

/-- What a row is shown as, when its dates can be printed. -/
theorem fromRow_of_printed (row : ReminderRow) {baselineMessageDate remindAt : String}
    (hbaseline : toISOString row.baselineMessageDate = some baselineMessageDate)
    (hremindAt : toISOString row.remindAt = some remindAt) :
    fromRow row = some {
      id := row.id
      ownerUserId := row.ownerUserId
      mailboxAddress := row.mailboxAddress
      conversationKey := row.conversationKey
      baselineMessageId := row.baselineMessageId
      baselineMessageDate, remindAt
      state := row.state
      resolutionReason := row.resolutionReason
      version := row.version
      createdAt := row.createdAt
      updatedAt := row.updatedAt
      resolvedAt := row.resolvedAt } := by
  simp [fromRow, hbaseline, hremindAt]

/-- A row that is shown has dates that can be printed. -/
theorem printed_of_fromRow {reminder : FollowUpReminder} (h : fromRow row = some reminder) :
    ∃ baselineMessageDate remindAt,
      toISOString row.baselineMessageDate = some baselineMessageDate ∧
      toISOString row.remindAt = some remindAt := by
  simp only [fromRow, Option.pure_def, Option.bind_eq_bind, Option.bind_eq_some_iff] at h
  obtain ⟨baselineMessageDate, hbaseline, remindAt, hremindAt, -⟩ := h
  exact ⟨baselineMessageDate, remindAt, hbaseline, hremindAt⟩

/-! ### The tables -/

variable {host : HostRuntime} {w w' : World}

/-- The user has access to the mailbox, or lost it. -/
def World.HasOrLost (w : World) (pair : String × String) : Prop :=
  pair ∈ w.access ∨ pair ∈ w.revoked

/-- The stored answer to a create is about the reminder that was created. -/
structure ReminderRow.Snapshot (row : ReminderRow) : Prop where
  id : row.createResult.id = row.id
  conversation : (row.createResult.ownerUserId, row.createResult.mailboxAddress,
    row.createResult.conversationKey) = row.conversation
  version : row.createResult.version = 1
  mailbox : row.createFingerprint.mailbox = row.mailboxAddress

theorem ReminderRow.Snapshot.follows (h : row.Snapshot) (hfollows : row.Follows row') :
    row'.Snapshot where
  id := by rw [hfollows.result, hfollows.id, h.id]
  conversation := by rw [hfollows.result, hfollows.conversation, h.conversation]
  version := by rw [hfollows.result, h.version]
  mailbox := by rw [hfollows.fingerprint, hfollows.belongs.2, h.mailbox]

/-- An active reminder says nothing about a resolution. -/
def ReminderRow.Open (row : ReminderRow) : Prop :=
  row.isActive = true → row.resolutionReason = none ∧ row.resolvedAt = none

/-- **The invariant**: one active reminder for a conversation, and a version for every change. -/
structure Consistent (host : HostRuntime) (w : World) : Prop where
  ids : (w.reminders.map (·.id)).Nodup
  createKeys : (w.reminders.map (·.createKey)).Nodup
  active : ((w.reminders.filter (·.isActive)).map (·.conversation)).Nodup
  versions : ∀ row ∈ w.reminders,
    row.version = 1 + w.updates.countP fun update => update.before.id = row.id
  updated : ∀ update ∈ w.updates, update.before.isActive = true ∧
    update.before.Follows update.after ∧ ∃ row ∈ w.reminders, row.id = update.before.id
  readable : ∀ row ∈ w.reminders, row.Readable host
  «open» : ∀ row ∈ w.reminders, row.Open
  operationKeys : (w.operations.map (·.key)).Nodup
  causes : w.updates.filterMap (·.cause) = w.operations.map (·.key)
  results : ∀ operation ∈ w.operations, ∃ update ∈ w.updates,
    update.cause = some operation.key ∧ update.before.id = operation.reminderId ∧
      fromRow update.after = some operation.result
  snapshots : ∀ row ∈ w.reminders, row.Snapshot
  mailboxes : ∀ operation ∈ w.operations,
    operation.payloadFingerprint.mailbox = operation.mailboxAddress
  owners : ∀ row ∈ w.reminders, w.HasOrLost (row.ownerUserId, row.mailboxAddress)
  actors : ∀ operation ∈ w.operations,
    w.HasOrLost (operation.ownerUserId, operation.mailboxAddress)

theorem Consistent.start (access : List (String × String)) : Consistent host (.start access) where
  ids := List.nodup_nil
  createKeys := List.nodup_nil
  active := List.nodup_nil
  versions _ h := (List.not_mem_nil h).elim
  updated _ h := (List.not_mem_nil h).elim
  readable _ h := (List.not_mem_nil h).elim
  «open» _ h := (List.not_mem_nil h).elim
  operationKeys := List.nodup_nil
  causes := rfl
  results _ h := (List.not_mem_nil h).elim
  snapshots _ h := (List.not_mem_nil h).elim
  mailboxes _ h := (List.not_mem_nil h).elim
  owners _ h := (List.not_mem_nil h).elim
  actors _ h := (List.not_mem_nil h).elim

/-! ### An update -/

section Update

variable {p : ReminderRow → Bool} {f : ReminderRow → ReminderRow}
  {cause : Option (String × String)}

/-- Active reminders are updated. -/
structure Updates (host : HostRuntime) (w : World) (p : ReminderRow → Bool)
    (f : ReminderRow → ReminderRow) : Prop where
  follows : ∀ row : ReminderRow, row.Follows (f row)
  active : ∀ row ∈ w.reminders, p row = true → row.isActive = true
  readable : ∀ row ∈ w.reminders, p row = true → (f row).Readable host
  «open» : ∀ row : ReminderRow, (f row).Open

variable (p f cause) in
/-- A reminder is updated once, if it meets the condition. -/
theorem countP_updates (h : Consistent host w) (hrow : row ∈ w.reminders) :
    ((w.reminders.filter p).map fun row => (⟨row, f row, cause⟩ : Update)).countP
      (fun update => update.before.id = row.id) = if p row then 1 else 0 := by
  rw [List.countP_map]
  change (w.reminders.filter p).countP (fun other => decide (other.id = row.id)) = _
  have hids : ((w.reminders.filter p).map (·.id)).Nodup := h.ids.sublist (List.filter_sublist.map _)
  split
  · rename_i hp
    exact countP_of_key hids (List.mem_filter.mpr ⟨hrow, hp⟩) (decide_eq_true rfl)
      fun other hother => of_decide_eq_true hother
  · rename_i hp
    refine List.countP_eq_zero.mpr fun other hother hsame => hp ?_
    obtain ⟨hmem, hother⟩ := List.mem_filter.mp hother
    obtain rfl := eq_of_key_eq h.ids hmem hrow (of_decide_eq_true hsame)
    exact hother

/-- Active conversations stay distinct, since only active reminders are updated. -/
theorem active_updateWhere (h : Consistent host w) (hupdates : Updates host w p f) :
    (((updateWhere p f w.reminders).filter (·.isActive)).map (·.conversation)).Nodup := by
  refine h.active.sublist ?_
  have hactive := hupdates.active
  generalize w.reminders = rows at hactive
  induction rows with
  | nil => exact List.Sublist.slnil
  | cons row rows ih =>
      have hrest := ih fun other hother => hactive other (List.mem_cons_of_mem _ hother)
      rw [updateWhere, List.map_cons, ← updateWhere]
      cases hp : p row with
      | true =>
          have hrow := hactive row List.mem_cons_self hp
          rw [if_pos rfl, List.filter_cons_of_pos hrow, List.map_cons]
          by_cases hstill : (f row).isActive = true
          · rw [List.filter_cons_of_pos hstill, List.map_cons, (hupdates.follows row).conversation]
            exact hrest.cons_cons _
          · rw [List.filter_cons_of_neg hstill]
            exact hrest.cons _
      | false =>
          rw [if_neg Bool.false_ne_true]
          by_cases hstill : row.isActive = true
          · rw [List.filter_cons_of_pos hstill, List.filter_cons_of_pos hstill, List.map_cons,
              List.map_cons]
            exact hrest.cons_cons _
          · rw [List.filter_cons_of_neg hstill, List.filter_cons_of_neg hstill]
            exact hrest

/-- The operations that an update is recorded with. -/
structure Recorded (w : World) (p : ReminderRow → Bool) (f : ReminderRow → ReminderRow)
    (cause : Option (String × String)) (new : List OperationRow) : Prop where
  keys : ((w.operations ++ new).map (·.key)).Nodup
  causes : ((w.reminders.filter p).filterMap fun _ => cause) = new.map (·.key)
  results : ∀ operation ∈ new, ∃ row ∈ w.reminders, p row = true ∧ cause = some operation.key ∧
    row.id = operation.reminderId ∧ fromRow (f row) = some operation.result
  mailboxes : ∀ operation ∈ new,
    operation.payloadFingerprint.mailbox = operation.mailboxAddress
  actors : ∀ operation ∈ new, w.HasOrLost (operation.ownerUserId, operation.mailboxAddress)

/-- **An update keeps the tables consistent**, with the operations that it is recorded with. -/
theorem Consistent.update (h : Consistent host w) (hupdates : Updates host w p f)
    {new : List OperationRow} (hrecorded : Recorded w p f cause new) :
    Consistent host { w.updateReminders p f cause with operations := w.operations ++ new } where
  ids := by
    change ((updateWhere p f w.reminders).map (·.id)).Nodup
    rw [map_key_updateWhere fun row => (hupdates.follows row).id]
    exact h.ids
  createKeys := by
    change ((updateWhere p f w.reminders).map (·.createKey)).Nodup
    rw [map_key_updateWhere fun row => (hupdates.follows row).createKey]
    exact h.createKeys
  active := active_updateWhere h hupdates
  versions row hrow := by
    change row.version = 1 + (w.updates ++ _).countP _
    rw [List.countP_append]
    obtain ⟨old, hold, hp, rfl⟩ | ⟨hrow, hp⟩ := mem_updateWhere.mp hrow
    · have hcount := countP_updates p f cause h hold
      rw [if_pos hp] at hcount
      rw [(hupdates.follows old).id, hcount, (hupdates.follows old).version, h.versions old hold,
        Nat.add_assoc]
    · have hcount := countP_updates p f cause h hrow
      rw [hp, if_neg Bool.false_ne_true] at hcount
      rw [hcount, Nat.add_zero]
      exact h.versions row hrow
  updated update hupdate := by
    have hkept : ∀ id, (∃ row ∈ w.reminders, row.id = id) →
        ∃ row ∈ updateWhere p f w.reminders, row.id = id := by
      rintro id ⟨row, hrow, rfl⟩
      refine ⟨if p row then f row else row, List.mem_map_of_mem hrow, ?_⟩
      split
      · exact (hupdates.follows row).id
      · rfl
    rcases List.mem_append.mp hupdate with hupdate | hupdate
    · obtain ⟨hactive, hfollows, hid⟩ := h.updated update hupdate
      exact ⟨hactive, hfollows, hkept _ hid⟩
    · obtain ⟨row, hrow, rfl⟩ := List.mem_map.mp hupdate
      obtain ⟨hmem, hp⟩ := List.mem_filter.mp hrow
      exact ⟨hupdates.active row hmem hp, hupdates.follows row, hkept _ ⟨row, hmem, rfl⟩⟩
  readable row hrow := by
    obtain ⟨old, hold, hp, rfl⟩ | ⟨hrow, -⟩ := mem_updateWhere.mp hrow
    · exact hupdates.readable old hold hp
    · exact h.readable row hrow
  «open» row hrow := by
    obtain ⟨old, -, -, rfl⟩ | ⟨hrow, -⟩ := mem_updateWhere.mp hrow
    · exact hupdates.open old
    · exact h.open row hrow
  operationKeys := hrecorded.keys
  causes := by
    change (w.updates ++ _).filterMap _ = (w.operations ++ new).map _
    rw [List.filterMap_append, List.map_append, h.causes, List.filterMap_map, ← hrecorded.causes]
    rfl
  results operation hoperation := by
    rcases List.mem_append.mp hoperation with hoperation | hoperation
    · obtain ⟨update, hupdate, hresult⟩ := h.results operation hoperation
      exact ⟨update, List.mem_append_left _ hupdate, hresult⟩
    · obtain ⟨row, hrow, hp, hresult⟩ := hrecorded.results operation hoperation
      exact ⟨⟨row, f row, cause⟩, List.mem_append_right _
        (List.mem_map_of_mem (List.mem_filter.mpr ⟨hrow, hp⟩)), hresult⟩
  snapshots row hrow := by
    obtain ⟨old, hold, -, rfl⟩ | ⟨hrow, -⟩ := mem_updateWhere.mp hrow
    · exact (h.snapshots old hold).follows (hupdates.follows old)
    · exact h.snapshots row hrow
  mailboxes operation hoperation := by
    rcases List.mem_append.mp hoperation with hoperation | hoperation
    · exact h.mailboxes operation hoperation
    · exact hrecorded.mailboxes operation hoperation
  owners row hrow := by
    obtain ⟨old, hold, -, rfl⟩ | ⟨hrow, -⟩ := mem_updateWhere.mp hrow
    · rw [(hupdates.follows old).belongs.1, (hupdates.follows old).belongs.2]
      exact h.owners old hold
    · exact h.owners row hrow
  actors operation hoperation := by
    rcases List.mem_append.mp hoperation with hoperation | hoperation
    · exact h.actors operation hoperation
    · exact hrecorded.actors operation hoperation

theorem Consistent.updateReminders (h : Consistent host w) (hupdates : Updates host w p f) :
    Consistent host (w.updateReminders p f none) := by
  have hrecorded : Recorded w p f none [] := {
    keys := by rw [List.append_nil]; exact h.operationKeys
    causes := by simp
    results _ hnil := absurd hnil List.not_mem_nil
    mailboxes _ hnil := absurd hnil List.not_mem_nil
    actors _ hnil := absurd hnil List.not_mem_nil }
  have hupdated := h.update hupdates hrecorded
  rw [List.append_nil] at hupdated
  exact hupdated

variable (cause) in
theorem Later.updateReminders (hupdates : Updates host w p f) :
    Later w (w.updateReminders p f cause) where
  reminders row hrow := by
    refine ⟨if p row then f row else row, List.mem_map_of_mem hrow, ?_⟩
    split
    · rename_i hp
      exact (hupdates.follows row).becomes (hupdates.active row hrow hp)
    · exact .refl row
  operations _ h := h
  refused _ h := h
  revoked _ h := h

end Update

/-! ### A reply -/

theorem InboundReply.updates (h : Consistent host w) (input : InboundReply) :
    Updates host w (input.completes w) input.set where
  follows _ := ⟨rfl, rfl, rfl, rfl, rfl, rfl⟩
  active row _ hp := by
    simp only [InboundReply.completes, Bool.and_eq_true] at hp
    exact hp.1.1.1.2
  readable row hrow _ := by
    obtain ⟨reminder, hreminder, hreads⟩ := h.readable row hrow
    obtain ⟨baselineMessageDate, remindAt, hbaseline, hremindAt⟩ := printed_of_fromRow hreminder
    obtain rfl :=
      Option.some.inj ((fromRow_of_printed row hbaseline hremindAt).symm.trans hreminder)
    exact ⟨_, fromRow_of_printed (input.set row) hbaseline hremindAt, hreads⟩
  «open» _ hactive := by simp [InboundReply.set, ReminderRow.isActive] at hactive

/-! ### Access -/

theorem World.hasOrLost_of_allows {mailboxAddress userId : String}
    (h : w.allows mailboxAddress userId = true) : w.HasOrLost (userId, mailboxAddress) :=
  .inl (List.contains_iff_mem.mp h)

/-- Only access and the notes about it change. -/
theorem Consistent.of_access (h : Consistent host w) (hreminders : w'.reminders = w.reminders)
    (hoperations : w'.operations = w.operations) (hupdates : w'.updates = w.updates)
    (haccess : ∀ pair, w.HasOrLost pair → w'.HasOrLost pair) : Consistent host w' where
  ids := by rw [hreminders]; exact h.ids
  createKeys := by rw [hreminders]; exact h.createKeys
  active := by rw [hreminders]; exact h.active
  versions := by rw [hreminders, hupdates]; exact h.versions
  updated := by rw [hreminders, hupdates]; exact h.updated
  readable := by rw [hreminders]; exact h.readable
  «open» := by rw [hreminders]; exact h.open
  operationKeys := by rw [hoperations]; exact h.operationKeys
  causes := by rw [hoperations, hupdates]; exact h.causes
  results := by rw [hoperations, hupdates]; exact h.results
  snapshots := by rw [hreminders]; exact h.snapshots
  mailboxes := by rw [hoperations]; exact h.mailboxes
  owners := by rw [hreminders]; exact fun row hrow => haccess _ (h.owners row hrow)
  actors := by rw [hoperations]; exact fun operation hmem => haccess _ (h.actors operation hmem)

theorem Consistent.refuse (h : Consistent host w) (pair : String × String) :
    Consistent host { w with refused := pair :: w.refused } :=
  h.of_access rfl rfl rfl fun _ hpair => hpair

theorem Later.refuse (w : World) (pair : String × String) :
    Later w { w with refused := pair :: w.refused } :=
  { Later.refl w with refused := fun _ hmem => List.mem_cons_of_mem _ hmem }

theorem Consistent.setAccess (h : Consistent host w) (pair : String × String) (allowed : Bool) :
    Consistent host (w.setAccess pair allowed) := by
  unfold World.setAccess
  split
  · refine h.of_access rfl rfl rfl fun other hother => ?_
    exact hother.imp_left (List.mem_cons_of_mem _)
  · refine h.of_access rfl rfl rfl fun other hother => ?_
    rcases hother with hmem | hlost
    · by_cases hsame : other = pair
      · exact .inr (hsame ▸ List.mem_cons_self)
      · exact .inl (List.mem_filter.mpr ⟨hmem, decide_eq_true hsame⟩)
    · exact .inr (List.mem_cons_of_mem _ hlost)

theorem Later.setAccess (w : World) (pair : String × String) (allowed : Bool) :
    Later w (w.setAccess pair allowed) := by
  unfold World.setAccess
  split
  · exact { Later.refl w with }
  · exact { Later.refl w with revoked := fun _ hmem => List.mem_cons_of_mem _ hmem }

/-! ### An operation on a reminder -/

/-- What the condition of an update says. -/
theorem ReminderStoreOperation.applies_iff :
    input.applies w row = true ↔ row.id = input.reminderId ∧ row.ownerUserId = input.ownerUserId ∧
      row.mailboxAddress = input.mailboxAddress ∧ row.isActive = true ∧
      row.version = input.expectedVersion ∧
      w.allows input.mailboxAddress input.ownerUserId = true := by
  simp only [applies, Bool.and_eq_true, decide_eq_true_eq, and_assoc]

theorem ReminderStoreOperation.follows (input : ReminderStoreOperation) (remindAt : ℤ)
    (row : ReminderRow) : row.Follows (input.set remindAt row) := ⟨rfl, rfl, rfl, rfl, rfl, rfl⟩

theorem ReminderStoreOperation.opens (input : ReminderStoreOperation) (remindAt : ℤ)
    (row : ReminderRow) : (input.set remindAt row).Open := by
  intro hactive
  simp only [ReminderRow.isActive, set] at hactive ⊢
  cases haction : input.action with
  | snooze remindAt => exact ⟨rfl, rfl⟩
  | dismiss => simp [haction] at hactive
  | complete => simp [haction] at hactive

/-- **The batch keeps the tables consistent**, when the row that it leaves is the reminder that it
records. -/
theorem Consistent.applyBatch (h : Consistent host w) {remindAt : Option ℤ}
    {next : FollowUpReminder} (hmailbox : input.fingerprint.mailbox = input.mailboxAddress)
    (hnext : ∀ t, remindAt = some t → ∀ row ∈ w.reminders, input.applies w row = true →
      fromRow (input.set t row) = some next ∧ host.dateParse next.remindAt = some t)
    (hbatch : (answer, w') = w.applyBatch input remindAt next) :
    Consistent host w' ∧ Later w w' ∧ (answer = .ok true → ∃ operation ∈ w'.operations,
      operation.key = (input.ownerUserId, input.operationId) ∧
      operation.payloadFingerprint = input.fingerprint ∧ operation.result = next) := by
  have hids : ∀ row ∈ w.reminders, ∀ row' ∈ w.reminders, input.applies w row = true →
      input.applies w row' = true → row.id = row'.id := fun row _ row' _ hrow hrow' =>
    (applies_iff.mp hrow).1.trans
      (applies_iff.mp hrow').1.symm
  have hone := countP_le_one_of_key h.ids hids
  have hsame : ∀ answer' : Except DatabaseError Bool, answer' ≠ .ok true →
      (answer, w') = (answer', w) → Consistent host w' ∧ Later w w' ∧
        (answer = .ok true → ∃ operation ∈ w'.operations,
          operation.key = (input.ownerUserId, input.operationId) ∧
          operation.payloadFingerprint = input.fingerprint ∧ operation.result = next) := by
    intro answer' hne heq
    cases heq
    exact ⟨h, .refl _, fun hok => absurd hok hne⟩
  unfold World.applyBatch at hbatch
  split at hbatch
  · exact hsame _ (by simp) hbatch
  · exact hsame _ (by simp) hbatch
  · rename_i changes t hcount
    have hchanges : changes = 0 := by omega
    subst hchanges
    rw [if_neg (by simp)] at hbatch
    split at hbatch
    · exact hsame _ (by simp) hbatch
    · rename_i hfresh
      cases hbatch
      obtain ⟨row, hfilter⟩ : ∃ row, w.reminders.filter (input.applies w) = [row] :=
        List.length_eq_one_iff.mp (by rw [← List.countP_eq_length_filter, hcount])
      obtain ⟨hrow, happlies⟩ := List.mem_filter.mp (hfilter ▸ List.mem_singleton_self row)
      obtain ⟨hid, -, -, -, -, hallows⟩ := applies_iff.mp happlies
      have hupdates : Updates host w (input.applies w) (input.set t) := {
        follows := input.follows t
        active := fun row _ hp => (applies_iff.mp hp).2.2.2.1
        readable := fun row hrow hp => ⟨next, hnext t rfl row hrow hp⟩
        «open» := input.opens t }
      refine ⟨h.update hupdates ⟨?_, ?_, ?_, ?_, ?_⟩, ?_, fun _ => ⟨_, List.mem_append_right _
        (List.mem_singleton_self _), rfl, rfl, rfl⟩⟩
      · rw [List.map_append, List.map_singleton, List.nodup_append]
        refine ⟨h.operationKeys, List.nodup_singleton _, fun key hkey key' hkey' heq => hfresh ?_⟩
        obtain ⟨other, hother, rfl⟩ := List.mem_map.mp hkey
        exact List.any_eq_true.mpr ⟨other, hother,
          decide_eq_true (heq.trans (List.mem_singleton.mp hkey'))⟩
      · rw [hfilter]
        rfl
      · intro operation hoperation
        obtain rfl := List.mem_singleton.mp hoperation
        exact ⟨row, hrow, happlies, rfl, hid, (hnext t rfl row hrow happlies).1⟩
      · intro operation hoperation
        obtain rfl := List.mem_singleton.mp hoperation
        exact hmailbox
      · intro operation hoperation
        obtain rfl := List.mem_singleton.mp hoperation
        exact World.hasOrLost_of_allows hallows
      · exact { Later.updateReminders (some (input.ownerUserId, input.operationId)) hupdates with
          operations := fun _ hmem => List.mem_append_left _ hmem }

/-! ### A new reminder -/

/-- A key that no row has is added. -/
theorem nodup_append_key {ρ κ : Type} {key : ρ → κ} {rows : List ρ} {new : ρ}
    (h : (rows.map key).Nodup) (hfresh : ∀ row ∈ rows, key row ≠ key new) :
    ((rows ++ [new]).map key).Nodup := by
  rw [List.map_append, List.map_singleton, List.nodup_append]
  refine ⟨h, List.nodup_singleton _, fun k hk k' hk' heq => ?_⟩
  obtain ⟨row, hrow, rfl⟩ := List.mem_map.mp hk
  exact hfresh row hrow (heq.trans (List.mem_singleton.mp hk'))

theorem ReminderRow.clashes_eq_false {new other : ReminderRow} (h : new.clashes other = false) :
    other.id ≠ new.id ∧ other.createKey ≠ new.createKey ∧
      (other.isActive = true → other.conversation ≠ new.conversation) := by
  simpa [ReminderRow.clashes, and_assoc] using h

theorem Consistent.append (h : Consistent host w) (new : ReminderRow)
    (hfresh : ∀ row ∈ w.reminders, new.clashes row = false)
    (hversion : new.version = 1) (hreadable : new.Readable host) (hopen : new.Open)
    (hsnapshot : new.Snapshot)
    (howner : w.HasOrLost (new.ownerUserId, new.mailboxAddress)) :
    Consistent host { w with reminders := w.reminders ++ [new] } where
  ids := nodup_append_key h.ids fun row hrow =>
    (ReminderRow.clashes_eq_false (hfresh row hrow)).1
  createKeys := nodup_append_key h.createKeys fun row hrow =>
    (ReminderRow.clashes_eq_false (hfresh row hrow)).2.1
  active := by
    change (((w.reminders ++ [new]).filter (·.isActive)).map (·.conversation)).Nodup
    rw [List.filter_append, List.filter_singleton]
    cases new.isActive with
    | true =>
        refine nodup_append_key h.active fun row hrow => ?_
        obtain ⟨hmem, hactive⟩ := List.mem_filter.mp hrow
        exact (ReminderRow.clashes_eq_false (hfresh row hmem)).2.2 hactive
    | false =>
        rw [cond_false, List.append_nil]
        exact h.active
  versions row hrow := by
    rcases List.mem_append.mp hrow with hrow | hrow
    · exact h.versions row hrow
    · obtain rfl := List.mem_singleton.mp hrow
      have hnone : w.updates.countP (fun update => update.before.id = row.id) = 0 := by
        refine List.countP_eq_zero.mpr fun update hupdate hsame => ?_
        obtain ⟨-, -, other, hother, hid⟩ := h.updated update hupdate
        exact (ReminderRow.clashes_eq_false (hfresh other hother)).1
          (hid.trans (of_decide_eq_true hsame))
      rw [hversion, hnone]
  updated update hupdate := by
    obtain ⟨hactive, hfollows, row, hrow, hid⟩ := h.updated update hupdate
    exact ⟨hactive, hfollows, row, List.mem_append_left _ hrow, hid⟩
  readable row hrow := by
    rcases List.mem_append.mp hrow with hrow | hrow
    · exact h.readable row hrow
    · exact List.mem_singleton.mp hrow ▸ hreadable
  «open» row hrow := by
    rcases List.mem_append.mp hrow with hrow | hrow
    · exact h.open row hrow
    · exact List.mem_singleton.mp hrow ▸ hopen
  operationKeys := h.operationKeys
  causes := h.causes
  results := h.results
  snapshots row hrow := by
    rcases List.mem_append.mp hrow with hrow | hrow
    · exact h.snapshots row hrow
    · exact List.mem_singleton.mp hrow ▸ hsnapshot
  mailboxes := h.mailboxes
  owners row hrow := by
    rcases List.mem_append.mp hrow with hrow | hrow
    · exact h.owners row hrow
    · exact List.mem_singleton.mp hrow ▸ howner
  actors := h.actors

/-- **An insert keeps the tables consistent.** -/
theorem Consistent.insertReminder (hprints : PrintsDates host) (h : Consistent host w)
    {row : FollowUpReminder} {idempotencyKey : String} {fingerprint : CreateFingerprint}
    (hversion : row.version = 1) (hmailbox : fingerprint.mailbox = row.mailboxAddress)
    (hinsert : (answer, w') = w.insertReminder row (host.dateParse row.baselineMessageDate)
      (host.dateParse row.remindAt) idempotencyKey fingerprint) :
    Consistent host w' ∧ Later w w' ∧
      (answer = .ok true → ∃ new ∈ w'.reminders, new.createKey = (row.ownerUserId, idempotencyKey) ∧
        new.createFingerprint = fingerprint ∧ new.createResult = row) ∧
      (answer = .ok false → (row.ownerUserId, row.mailboxAddress) ∈ w'.refused) := by
  unfold World.insertReminder at hinsert
  split at hinsert
  · cases hinsert
    exact ⟨h.refuse _, .refuse _ _, fun hok => by simp at hok, fun _ => List.mem_cons_self⟩
  · rename_i hallows
    have hallows : w.allows row.mailboxAddress row.ownerUserId = true := by simpa using hallows
    split at hinsert
    · rename_i baselineMessageDate remindAt hbaseline hremindAt
      simp only at hinsert
      split at hinsert
      · cases hinsert
        exact ⟨h, .refl _, fun hok => by simp at hok, fun hok => by simp at hok⟩
      · rename_i hfresh
        cases hinsert
        obtain ⟨printedBaseline, hprintedBaseline, -⟩ := hprints.print _ _ hbaseline
        obtain ⟨printed, hprinted, hreads⟩ := hprints.print _ _ hremindAt
        have hkept := h.append
          (insertedRow row baselineMessageDate remindAt idempotencyKey fingerprint)
            (fun other hother => eq_false_of_ne_true (List.any_eq_false.mp
            (eq_false_of_ne_true hfresh) other hother))
          hversion ⟨_, fromRow_of_printed _ hprintedBaseline hprinted, hreads⟩ (fun _ => ⟨rfl, rfl⟩)
          ⟨rfl, rfl, hversion, hmailbox⟩ (World.hasOrLost_of_allows hallows)
        refine ⟨hkept, ?_, fun _ => ?_, fun hok => by simp at hok⟩
        · exact { Later.refl w with
            reminders := fun other hother => ⟨other, List.mem_append_left _ hother, .refl other⟩ }
        · exact ⟨_, List.mem_append_right _ (List.mem_singleton_self _), rfl, rfl, rfl⟩
    · cases hinsert
      exact ⟨h, .refl _, fun hok => by simp at hok, fun hok => by simp at hok⟩

end MailPortal.Reminders
