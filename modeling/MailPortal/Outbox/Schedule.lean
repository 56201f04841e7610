import Mathlib.Data.String.Basic
import MailPortal.Outbox.Storage

/-!
# The Scheduler of the Outbox

`findNextActionAt` tells the alarm of the mailbox when to ring; the selections of the alarm tell
what it then finds. The first is one `CASE` over the statuses, the others are four conditions
written apart: `#findNextDispatchableRow`, `listExpiredSending`, `listUnreconciledAccepted` and
`listPendingCancellationRecovery`.

A row is never selected, or from a time on, or at any time (`Timing`), and the `CASE` tells which.

Main results:

* `timing` : the `CASE` and the conditions agree on a row.
* `next_action_agrees` : the alarm rings when there is something to find.
-/

namespace MailPortal.Outbox

open Sql

variable (host : StorageHost) (t : StorageTables)

/-! ### The conditions -/

/-- `strftime(x) IS NULL`, `strftime(x) <> x` -/
def notIso (x : Option String) : List Truth :=
  [isNull (x.bind host.isoText), ne (x.bind host.isoText) x]

/-- The rows of `#findNextDispatchableRow`. -/
def dispatchable (now : String) (row : DeliveryRow) : Truth :=
  anyOf
    [allOf
      [eq (some row.status) (some "queued"),
        anyOf (le (some row.availableAt) (some now) :: notIso host (some row.availableAt))],
      allOf
        [eq (some row.status) (some "retrying"),
          anyOf
            (le row.nextAttemptAt (some now) :: isNull row.nextAttemptAt ::
              notIso host row.nextAttemptAt)]]

/-- The draft of a delivery is there, in the version that was sent. -/
def sourceDraftExists (row : DeliveryRow) : Truth :=
  existsRow t.emails fun draft =>
    allOf
      [eq (some draft.id) row.sourceDraftId,
        eq (some draft.folderId) (some "draft"),
        eq (some draft.draftVersion) row.sourceDraftVersion]

/-- `outbound_acceptance_recovery` names the delivery. -/
def acceptanceRecoveryExists (row : DeliveryRow) : Truth :=
  existsRow t.acceptanceRecovery fun deliveryId => eq (some deliveryId) (some row.id)

/-- The rows of `listUnreconciledAccepted`. -/
def unreconciledAccepted (now : String) (row : DeliveryRow) : Truth :=
  existsRow t.emails fun email =>
    allOf
      [eq (some email.id) (some row.emailId),
        eq (some row.status) (some "sent"),
        not (acceptanceRecoveryExists t row),
        anyOf
          (isNull row.nextAttemptAt :: le row.nextAttemptAt (some now) ::
            notIso host row.nextAttemptAt),
        anyOf [eq (some email.folderId) (some "outbox"), sourceDraftExists t row]]

/-- The rows of `listPendingCancellationRecovery`. -/
def pendingCancellationRecovery (now : String) (row : DeliveryRow) : Truth :=
  existsRow t.emails fun email =>
    allOf
      [eq (some email.id) (some row.emailId),
        eq (some row.status) (some "cancelled"),
        eq (some email.folderId) (some "outbox"),
        anyOf
          [isNull row.lastErrorCode,
            ne row.lastErrorCode (some "outbound_cancellation_recovery_parked")],
        anyOf
          (isNull row.nextAttemptAt :: le row.nextAttemptAt (some now) ::
            notIso host row.nextAttemptAt)]

/-- A row is found by one of the selections. -/
def selectable (now : String) (row : DeliveryRow) : Bool :=
  holds (dispatchable host now row) || holds (expiredSending host now row) ||
    holds (unreconciledAccepted host t now row) ||
    holds (pendingCancellationRecovery host t now row)

/-! ### The alarm -/

/-- The email of a delivery lies in the outbox. -/
def outboxEmailExists (row : DeliveryRow) : Truth :=
  existsRow t.emails fun email =>
    allOf
      [eq (some email.id) (some row.emailId), eq (some email.folderId) (some "outbox")]

/-- The `CASE` of `findNextActionAt`. -/
def nextAction (row : DeliveryRow) : Option String :=
  caseWhen
    [(eq (some row.status) (some "queued"),
        caseWhen [(anyOf (notIso host (some row.availableAt)), some epoch)]
          (some row.availableAt)),
      (eq (some row.status) (some "retrying"),
        caseWhen [(anyOf (notIso host row.nextAttemptAt), some epoch)] row.nextAttemptAt),
      (eq (some row.status) (some "sending"),
        caseWhen
          [(anyOf
              (isNull row.leaseToken :: eq (row.leaseToken.map sqlTrim) (some "") ::
                notIso host row.leaseExpiresAt),
            some epoch)]
          row.leaseExpiresAt),
      (allOf
          [eq (some row.status) (some "sent"), not (acceptanceRecoveryExists t row),
            anyOf [outboxEmailExists t row, sourceDraftExists t row]],
        caseWhen
          [(isNull row.nextAttemptAt, some row.updatedAt),
            (anyOf (notIso host row.nextAttemptAt), some epoch)]
          row.nextAttemptAt),
      (allOf
          [eq (some row.status) (some "cancelled"),
            anyOf
              [isNull row.lastErrorCode,
                ne row.lastErrorCode (some "outbound_cancellation_recovery_parked")],
            outboxEmailExists t row],
        caseWhen
          [(isNull row.nextAttemptAt, some row.updatedAt),
            (anyOf (notIso host row.nextAttemptAt), some epoch)]
          row.nextAttemptAt)]
    none

def scheduledStatuses : List String := ["queued", "retrying", "sending", "sent", "cancelled"]

def findNextActionAt : Option String :=
  minimum
    ((t.deliveries.filter fun row => row.status ∈ scheduledStatuses).map (nextAction host t))

/-! ### The timing of a row -/

/-- **When a row is found**, and what the alarm is told of it. -/
inductive Timing (row : DeliveryRow) : Prop
  | never (next : nextAction host t row = none)
      (found : ∀ now, selectable host t now row = false)
  | since (x : String) (next : nextAction host t row = some x)
      (found : ∀ now, selectable host t now row = true ↔ x ≤ now)
  /-- Told by a time that has passed. -/
  | always (x : String) (next : nextAction host t row = some x)
      (passed : x = epoch ∨ x = row.updatedAt) (found : ∀ now, selectable host t now row = true)

variable {host} {t}

/-- A time has come, or is no time. -/
def Due (host : StorageHost) (now : String) (x : Option String) : Prop :=
  ∀ s, x = some s → host.isoText s = some s → s ≤ now

/-- A lease without a token. -/
def Tokenless (row : DeliveryRow) : Prop :=
  row.leaseToken = none ∨ row.leaseToken.map sqlTrim = some ""

/-- An accepted delivery whose message or draft is still to be settled. -/
def Unsettled (t : StorageTables) (row : DeliveryRow) : Prop :=
  holds (not (acceptanceRecoveryExists t row)) = true ∧
    (holds (outboxEmailExists t row) = true ∨ holds (sourceDraftExists t row) = true)

/-- A cancelled delivery whose message is still in the outbox. -/
def Unparked (t : StorageTables) (row : DeliveryRow) : Prop :=
  (row.lastErrorCode = none ∨
    holds (ne row.lastErrorCode (some "outbound_cancellation_recovery_parked")) = true) ∧
    holds (outboxEmailExists t row) = true

theorem notIso_iff {x : Option String} :
    holds (anyOf (notIso host x)) = true ↔
      ∀ s, x = some s → host.isoText s ≠ some s := by
  simp only [notIso, holds_anyOf_cons, holds_anyOf_nil, Bool.or_false, Bool.or_eq_true,
    holds_isNull, holds_ne]
  constructor
  · rintro (hnull | ⟨a, b, ha, hb, hne⟩) s hs hiso
    · rw [hs, Option.bind_some, hiso] at hnull
      cases hnull
    · rw [hs, Option.bind_some, hiso] at ha
      rw [hs] at hb
      exact hne ((Option.some.inj ha).symm.trans (Option.some.inj hb))
  · intro h
    cases x with
    | none => exact .inl rfl
    | some s =>
        cases hiso : host.isoText s with
        | none => exact .inl hiso
        | some a =>
            refine .inr ⟨a, s, hiso, rfl, ?_⟩
            rintro rfl
            exact h a rfl hiso

/-- The conditions on a time. -/
theorem due_iff {now : String} {x : Option String} :
    (holds (le x (some now)) || holds (anyOf (notIso host x))) = true ↔
      Due host now x := by
  rw [Bool.or_eq_true, notIso_iff, holds_le]
  constructor
  · rintro (⟨s, n, rfl, hn, hle⟩ | hno) s' hs' hiso
    · cases hs'
      cases hn
      exact hle
    · exact absurd hiso (hno s' hs')
  · intro h
    by_cases hiso : ∃ s, x = some s ∧ host.isoText s = some s
    · obtain ⟨s, hs, hiso⟩ := hiso
      exact .inl ⟨s, now, hs, rfl, h s hs hiso⟩
    · exact .inr fun s hs hiso' => hiso ⟨s, hs, hiso'⟩

/-- A time that is NULL is out of the format. -/
theorem due_or_isNull {now : String} {x : Option String} :
    (holds (le x (some now)) ||
      (holds (isNull x) || holds (anyOf (notIso host x)))) = true ↔
      Due host now x := by
  rw [← due_iff, Bool.or_eq_true, Bool.or_eq_true, Bool.or_eq_true, holds_isNull]
  refine ⟨?_, fun h => h.imp_right .inr⟩
  rintro (hle | hnull | hno)
  · exact .inl hle
  · refine .inr (notIso_iff.mpr fun s hs => ?_)
    rw [hnull] at hs
    cases hs
  · exact .inr hno

variable {row : DeliveryRow}

theorem dispatchable_iff {now : String} :
    holds (dispatchable host now row) = true ↔
      row.status = "queued" ∧ Due host now (some row.availableAt) ∨
        row.status = "retrying" ∧ Due host now row.nextAttemptAt := by
  rw [← due_iff, ← due_or_isNull]
  simp only [dispatchable, holds_anyOf_cons, holds_anyOf_nil, holds_allOf_cons,
    holds_allOf_nil, holds_eq_some, Bool.or_false, Bool.and_true, Bool.or_eq_true,
    Bool.and_eq_true, decide_eq_true_eq]

theorem expiredSending_iff {now : String} :
    holds (expiredSending host now row) = true ↔
      row.status = "sending" ∧ (Tokenless row ∨ Due host now row.leaseExpiresAt) := by
  have hseconds : holds (isNull (row.leaseExpiresAt.bind host.seconds)) = true ↔
      row.leaseExpiresAt.bind host.isoText = none := by
    rw [holds_isNull]
    cases row.leaseExpiresAt with
    | none => exact Iff.rfl
    | some s => exact host.seconds_null s
  have htrim : holds (eq (row.leaseToken.map sqlTrim) (some "")) = true ↔
      row.leaseToken.map sqlTrim = some "" := by
    rw [holds_eq]
    simp
  have hiso := @due_or_isNull host now row.leaseExpiresAt
  simp only [notIso, holds_anyOf_cons, holds_anyOf_nil, Bool.or_false, Bool.or_eq_true,
    holds_isNull] at hiso
  simp only [expiredSending, holds_anyOf_cons, holds_anyOf_nil, holds_allOf_cons,
    holds_allOf_nil, holds_eq_some, Bool.or_false, Bool.and_true, Bool.or_eq_true,
    Bool.and_eq_true, decide_eq_true_eq, hseconds, htrim, holds_isNull, Tokenless, ← hiso]
  refine and_congr_right' ⟨?_, ?_⟩
  · rintro (hle | hnull | htoken | htrim | hdate | hne)
    · exact .inr (.inl hle)
    · exact .inr (.inr (.inl hnull))
    · exact .inl (.inl htoken)
    · exact .inl (.inr htrim)
    · exact .inr (.inr (.inr (.inl hdate)))
    · exact .inr (.inr (.inr (.inr hne)))
  · rintro ((htoken | htrim) | hle | hnull | hdate | hne)
    · exact .inr (.inr (.inl htoken))
    · exact .inr (.inr (.inr (.inl htrim)))
    · exact .inl hle
    · exact .inr (.inl hnull)
    · exact .inr (.inr (.inr (.inr (.inl hdate))))
    · exact .inr (.inr (.inr (.inr (.inr hne))))

theorem outboxEmailExists_iff :
    holds (outboxEmailExists t row) = true ↔
      ∃ email ∈ t.emails, email.id = row.emailId ∧ email.folderId = "outbox" := by
  simp only [outboxEmailExists, holds_existsRow, holds_allOf_cons, holds_allOf_nil,
    holds_eq_some, Bool.and_true, Bool.and_eq_true, decide_eq_true_eq]

/-- The join is with an email that is there, by the foreign key. -/
theorem unreconciledAccepted_iff {now : String} (hrow : row ∈ t.deliveries) :
    holds (unreconciledAccepted host t now row) = true ↔
      row.status = "sent" ∧ Unsettled t row ∧ Due host now row.nextAttemptAt := by
  have hiso := @due_or_isNull host now row.nextAttemptAt
  obtain ⟨joined, hjoined, hkey⟩ := t.emailExists row hrow
  simp only [unreconciledAccepted, holds_existsRow, holds_anyOf_cons, holds_anyOf_nil,
    holds_allOf_cons, holds_allOf_nil, holds_eq_some, Bool.or_false, Bool.and_true,
    Bool.and_eq_true, decide_eq_true_eq]
  rw [Bool.or_left_comm, Unsettled, outboxEmailExists_iff, ← hiso]
  constructor
  · rintro ⟨email, hemail, hid, hsent, hrecovery, hdue, hopen⟩
    refine ⟨hsent, ⟨hrecovery, ?_⟩, hdue⟩
    rcases Bool.or_eq_true _ _ |>.mp hopen with hfolder | hdraft
    · exact .inl ⟨email, hemail, hid, of_decide_eq_true hfolder⟩
    · exact .inr hdraft
  · rintro ⟨hsent, ⟨hrecovery, hopen⟩, hdue⟩
    rcases hopen with ⟨email, hemail, hid, hfolder⟩ | hdraft
    · exact ⟨email, hemail, hid, hsent, hrecovery, hdue, by rw [decide_eq_true hfolder]; rfl⟩
    · exact ⟨joined, hjoined, hkey, hsent, hrecovery, hdue, by rw [hdraft, Bool.or_true]⟩

theorem pendingCancellationRecovery_iff {now : String} :
    holds (pendingCancellationRecovery host t now row) = true ↔
      row.status = "cancelled" ∧ Unparked t row ∧ Due host now row.nextAttemptAt := by
  have hiso := @due_or_isNull host now row.nextAttemptAt
  simp only [pendingCancellationRecovery, holds_existsRow, holds_anyOf_cons,
    holds_anyOf_nil, holds_allOf_cons, holds_allOf_nil, holds_eq_some,
    Bool.or_false, Bool.and_true, Bool.and_eq_true, decide_eq_true_eq]
  rw [Bool.or_left_comm, Unparked, outboxEmailExists_iff, ← hiso, ← holds_isNull,
    ← Bool.or_eq_true]
  constructor
  · rintro ⟨email, hemail, hid, hcancelled, hfolder, hcode, hdue⟩
    exact ⟨hcancelled, ⟨hcode, email, hemail, hid, hfolder⟩, hdue⟩
  · rintro ⟨hcancelled, ⟨hcode, email, hemail, hid, hfolder⟩, hdue⟩
    exact ⟨email, hemail, hid, hcancelled, hfolder, hcode, hdue⟩

/-- **The rows that are found**, by their status. -/
theorem selectable_iff {now : String} (hrow : row ∈ t.deliveries) :
    selectable host t now row = true ↔
      row.status = "queued" ∧ Due host now (some row.availableAt) ∨
      row.status = "retrying" ∧ Due host now row.nextAttemptAt ∨
      row.status = "sending" ∧ (Tokenless row ∨ Due host now row.leaseExpiresAt) ∨
      row.status = "sent" ∧ Unsettled t row ∧ Due host now row.nextAttemptAt ∨
      row.status = "cancelled" ∧ Unparked t row ∧ Due host now row.nextAttemptAt := by
  rw [selectable, Bool.or_eq_true, Bool.or_eq_true, Bool.or_eq_true, dispatchable_iff,
    expiredSending_iff, unreconciledAccepted_iff hrow, pendingCancellationRecovery_iff]
  simp only [or_assoc]

/-- What the alarm is told of a time. -/
def told (host : StorageHost) (x : Option String) : Option String :=
  caseWhen [(anyOf (notIso host x), some epoch)] x

theorem told_iso {s : String} (h : host.isoText s = some s) : told host (some s) = some s := by
  have hno : holds (anyOf (notIso host (some s))) ≠ true := fun hno =>
    notIso_iff.mp hno s rfl h
  rw [told, caseWhen, if_neg hno, caseWhen]

theorem told_epoch {x : Option String} (h : ∀ s, x = some s → host.isoText s ≠ some s) :
    told host x = some epoch := by
  rw [told, caseWhen, if_pos (notIso_iff.mpr h)]

/-- A row that is found when its time is due. -/
theorem timing_of_due {x : Option String} (hnext : nextAction host t row = told host x)
    (hfound : ∀ now, selectable host t now row = true ↔ Due host now x) : Timing host t row := by
  by_cases hiso : ∃ s, x = some s ∧ host.isoText s = some s
  · obtain ⟨s, rfl, hiso⟩ := hiso
    refine .since s (hnext.trans (told_iso hiso)) fun now => (hfound now).trans ?_
    refine ⟨fun hdue => hdue s rfl hiso, fun hle s' hs' _ => ?_⟩
    cases hs'
    exact hle
  · have hno : ∀ s, x = some s → host.isoText s ≠ some s := fun s hs h => hiso ⟨s, hs, h⟩
    refine .always epoch (hnext.trans (told_epoch hno)) (.inl rfl) fun now => ?_
    exact (hfound now).mpr fun s hs h => absurd h (hno s hs)

/-- A row that is found when its time is due or NULL, told by its last change. -/
theorem timing_of_retry (hnext : nextAction host t row =
      caseWhen
        [(isNull row.nextAttemptAt, some row.updatedAt),
          (anyOf (notIso host row.nextAttemptAt), some epoch)] row.nextAttemptAt)
    (hfound : ∀ now, selectable host t now row = true ↔ Due host now row.nextAttemptAt) :
    Timing host t row := by
  cases hx : row.nextAttemptAt with
  | none =>
      rw [caseWhen, if_pos (holds_isNull.mpr hx)] at hnext
      refine .always row.updatedAt hnext (.inr rfl) fun now => (hfound now).mpr fun s hs => ?_
      rw [hx] at hs
      cases hs
  | some s =>
      have hnull : holds (isNull row.nextAttemptAt) ≠ true := by
        rw [Ne, holds_isNull, hx]
        exact Option.some_ne_none s
      rw [caseWhen, if_neg hnull] at hnext
      exact timing_of_due hnext hfound

theorem unsettled_iff :
    holds (allOf [eq (some row.status) (some "sent"),
      not (acceptanceRecoveryExists t row),
      anyOf [outboxEmailExists t row, sourceDraftExists t row]]) = true ↔
      row.status = "sent" ∧ Unsettled t row := by
  simp only [Unsettled, holds_anyOf_cons, holds_anyOf_nil, holds_allOf_cons,
    holds_allOf_nil, holds_eq_some, Bool.or_false, Bool.and_true, Bool.or_eq_true,
    Bool.and_eq_true, decide_eq_true_eq]

theorem unparked_iff :
    holds (allOf [eq (some row.status) (some "cancelled"),
      anyOf [isNull row.lastErrorCode,
        ne row.lastErrorCode (some "outbound_cancellation_recovery_parked")],
      outboxEmailExists t row]) = true ↔ row.status = "cancelled" ∧ Unparked t row := by
  simp only [Unparked, holds_anyOf_cons, holds_anyOf_nil, holds_allOf_cons,
    holds_allOf_nil, holds_eq_some, Bool.or_false, Bool.and_true, Bool.or_eq_true,
    Bool.and_eq_true, decide_eq_true_eq, holds_isNull]

theorem isStatus {status : String} :
    holds (eq (some row.status) (some status)) = true ↔ row.status = status := by
  rw [holds_eq_some, decide_eq_true_eq]

/-- The lease of a row that is sending. -/
theorem timing_sending (hstatus : row.status = "sending")
    (hfound : ∀ now, selectable host t now row = true ↔
      Tokenless row ∨ Due host now row.leaseExpiresAt) : Timing host t row := by
  have hnext : nextAction host t row = caseWhen
      [(anyOf (isNull row.leaseToken :: eq (row.leaseToken.map sqlTrim) (some "") ::
        notIso host row.leaseExpiresAt), some epoch)] row.leaseExpiresAt := by
    rw [nextAction, caseWhen, if_neg (by simp [hstatus]), caseWhen,
      if_neg (by simp [hstatus]), caseWhen, if_pos (isStatus.mpr hstatus)]
  have htoken : holds (anyOf (isNull row.leaseToken ::
      eq (row.leaseToken.map sqlTrim) (some "") :: notIso host row.leaseExpiresAt)) = true ↔
      Tokenless row ∨ holds (anyOf (notIso host row.leaseExpiresAt)) = true := by
    rw [holds_anyOf_cons, holds_anyOf_cons, Bool.or_eq_true, Bool.or_eq_true,
      holds_isNull, holds_eq, Tokenless, or_assoc]
    simp
  by_cases htokenless : Tokenless row
  · rw [caseWhen, if_pos (htoken.mpr (.inl htokenless))] at hnext
    exact .always epoch hnext (.inl rfl) fun now => (hfound now).mpr (.inl htokenless)
  · refine timing_of_due (x := row.leaseExpiresAt) ?_ fun now =>
      (hfound now).trans (or_iff_right htokenless)
    rw [hnext, caseWhen]
    by_cases hno : holds (anyOf (notIso host row.leaseExpiresAt)) = true
    · rw [if_pos (htoken.mpr (.inr hno)), told_epoch (notIso_iff.mp hno)]
    · rw [if_neg fun h => (htoken.mp h).elim htokenless hno, told, caseWhen, caseWhen,
        if_neg hno, caseWhen]

/-- **The alarm and the selections agree on a row.** -/
theorem timing (hrow : row ∈ t.deliveries) : Timing host t row := by
  have hfound := fun now => @selectable_iff host t row now hrow
  by_cases hqueued : row.status = "queued"
  · refine timing_of_due (x := some row.availableAt) ?_ fun now => (hfound now).trans ?_
    · rw [nextAction, caseWhen, if_pos (isStatus.mpr hqueued)]
      rfl
    · simp [hqueued]
  by_cases hretrying : row.status = "retrying"
  · refine timing_of_due (x := row.nextAttemptAt) ?_ fun now => (hfound now).trans ?_
    · rw [nextAction, caseWhen, if_neg (mt isStatus.mp hqueued), caseWhen,
        if_pos (isStatus.mpr hretrying)]
      rfl
    · simp [hretrying]
  by_cases hsending : row.status = "sending"
  · refine timing_sending hsending fun now => (hfound now).trans ?_
    simp [hsending]
  by_cases hsent : row.status = "sent" ∧ Unsettled t row
  · refine timing_of_retry ?_ fun now => (hfound now).trans ?_
    · rw [nextAction, caseWhen, if_neg (mt isStatus.mp hqueued), caseWhen,
        if_neg (mt isStatus.mp hretrying), caseWhen, if_neg (mt isStatus.mp hsending),
        caseWhen, if_pos (unsettled_iff.mpr hsent)]
    · simp [hsent]
  by_cases hcancelled : row.status = "cancelled" ∧ Unparked t row
  · refine timing_of_retry ?_ fun now => (hfound now).trans ?_
    · rw [nextAction, caseWhen, if_neg (mt isStatus.mp hqueued), caseWhen,
        if_neg (mt isStatus.mp hretrying), caseWhen, if_neg (mt isStatus.mp hsending),
        caseWhen, if_neg (mt unsettled_iff.mp hsent), caseWhen,
        if_pos (unparked_iff.mpr hcancelled)]
    · simp [hcancelled]
  · refine .never ?_ fun now => ?_
    · rw [nextAction, caseWhen, if_neg (mt isStatus.mp hqueued), caseWhen,
        if_neg (mt isStatus.mp hretrying), caseWhen, if_neg (mt isStatus.mp hsending),
        caseWhen, if_neg (mt unsettled_iff.mp hsent), caseWhen,
        if_neg (mt unparked_iff.mp hcancelled), caseWhen]
    · rw [← Bool.not_eq_true, hfound now]
      rintro (⟨h, -⟩ | ⟨h, -⟩ | ⟨h, -⟩ | ⟨h, hopen, -⟩ | ⟨h, hopen, -⟩)
      · exact hqueued h
      · exact hretrying h
      · exact hsending h
      · exact hsent ⟨h, hopen⟩
      · exact hcancelled ⟨h, hopen⟩

/-- Only rows of a scheduled status have a time. -/
theorem nextAction_scheduled {x : String} (h : nextAction host t row = some x) :
    row.status ∈ scheduledStatuses := by
  by_contra hstatus
  simp only [scheduledStatuses, List.mem_cons, List.not_mem_nil, or_false, not_or] at hstatus
  obtain ⟨hqueued, hretrying, hsending, hsent, hcancelled⟩ := hstatus
  rw [nextAction, caseWhen, if_neg (mt isStatus.mp hqueued), caseWhen,
    if_neg (mt isStatus.mp hretrying), caseWhen, if_neg (mt isStatus.mp hsending),
    caseWhen, if_neg fun h => hsent (unsettled_iff.mp h).1, caseWhen,
    if_neg fun h => hcancelled (unparked_iff.mp h).1, caseWhen] at h
  cases h

/-- The alarm is told the times of all rows. -/
theorem mem_nextActions {x : String} :
    some x ∈ (t.deliveries.filter fun row => row.status ∈ scheduledStatuses).map
        (nextAction host t) ↔
      ∃ row ∈ t.deliveries, nextAction host t row = some x := by
  simp only [List.mem_map, List.mem_filter, decide_eq_true_eq]
  constructor
  · rintro ⟨row, ⟨hrow, -⟩, hnext⟩
    exact ⟨row, hrow, hnext⟩
  · rintro ⟨row, hrow, hnext⟩
    exact ⟨row, ⟨hrow, nextAction_scheduled hnext⟩, hnext⟩

/-- **The scheduler of the outbox.** From the epoch on, and not before a change of a row: the alarm
is due when a row is found; when it is not yet due no row is found before; and when there is no
alarm no row is ever found. -/
theorem next_action_agrees (host : StorageHost) (t : StorageTables) (now : String)
    (hepoch : epoch ≤ now) (hnow : ∀ row ∈ t.deliveries, row.updatedAt ≤ now) :
    ((∃ x, findNextActionAt host t = some x ∧ x ≤ now) ↔
      ∃ row ∈ t.deliveries, selectable host t now row = true) ∧
    (∀ x, findNextActionAt host t = some x → now < x →
      ∀ early < x, ∀ row ∈ t.deliveries, selectable host t early row = false) ∧
    (findNextActionAt host t = none →
      ∀ later, ∀ row ∈ t.deliveries, selectable host t later row = false) := by
  have hleast : ∀ x, findNextActionAt host t = some x →
      (∃ row ∈ t.deliveries, nextAction host t row = some x) ∧
        ∀ row ∈ t.deliveries, ∀ y, nextAction host t row = some y → x ≤ y := by
    intro x hx
    obtain ⟨hmem, hle⟩ := minimum_eq_some hx
    exact ⟨mem_nextActions.mp hmem, fun row hrow y hy =>
      hle y (mem_nextActions.mpr ⟨row, hrow, hy⟩)⟩
  have hpassed : ∀ row ∈ t.deliveries, ∀ x, x = epoch ∨ x = row.updatedAt → x ≤ now := by
    rintro row hrow x (rfl | rfl)
    · exact hepoch
    · exact hnow row hrow
  refine ⟨⟨?_, ?_⟩, ?_, ?_⟩
  · rintro ⟨x, hx, hle⟩
    obtain ⟨row, hrow, hnext⟩ := (hleast x hx).1
    refine ⟨row, hrow, ?_⟩
    cases @timing host t row hrow with
    | never next =>
        rw [hnext] at next
        cases next
    | since y next found =>
        rw [hnext] at next
        exact (found now).mpr (Option.some.inj next ▸ hle)
    | always y next passed found => exact found now
  · rintro ⟨row, hrow, hselected⟩
    obtain ⟨y, hy, hle⟩ : ∃ y, nextAction host t row = some y ∧ y ≤ now := by
      cases @timing host t row hrow with
      | never next found =>
          rw [found now] at hselected
          cases hselected
      | since y next found => exact ⟨y, next, (found now).mp hselected⟩
      | always y next passed found => exact ⟨y, next, hpassed row hrow y passed⟩
    cases hx : findNextActionAt host t with
    | none => exact absurd (mem_nextActions.mpr ⟨row, hrow, hy⟩) (minimum_eq_none.mp hx y)
    | some x => exact ⟨x, rfl, ((hleast x hx).2 row hrow y hy).trans hle⟩
  · intro x hx hlater early hearly row hrow
    have hleast := (hleast x hx).2 row hrow
    cases @timing host t row hrow with
    | never next found => exact found early
    | since y next found =>
        rw [← Bool.not_eq_true, found early, not_le]
        exact hearly.trans_le (hleast y next)
    | always y next passed found =>
        -- a time that has passed would be earlier than the alarm
        exact absurd ((hleast y next).trans (hpassed row hrow y passed)) (not_le.mpr hlater)
  · intro hnone later row hrow
    have hno : ∀ y, nextAction host t row ≠ some y := fun y hy =>
      minimum_eq_none.mp hnone y (mem_nextActions.mpr ⟨row, hrow, hy⟩)
    cases @timing host t row hrow with
    | never next found => exact found later
    | since y next found => exact absurd next (hno y)
    | always y next passed found => exact absurd next (hno y)

/-- One delivery that waits for its time. -/
theorem next_action_agrees_sample :
    ((∃ x, findNextActionAt plainHost (oneDelivery plainDelivery) = some x ∧
        x ≤ "2026-07-11T10:00:40.000Z") ↔
      ∃ row ∈ [plainDelivery],
        selectable plainHost (oneDelivery plainDelivery) "2026-07-11T10:00:40.000Z" row = true) :=
  (next_action_agrees plainHost (oneDelivery plainDelivery) "2026-07-11T10:00:40.000Z"
    (by decide +kernel) (by decide +kernel)).1

/-- **Before the epoch** a delivery without a time is found, and the alarm is not yet due. -/
theorem alarm_before_epoch : ∃ (host : StorageHost) (t : StorageTables) (now : String),
    isCanonicalUtcTimestamp now = true ∧ (∀ row ∈ t.deliveries, row.updatedAt ≤ now) ∧
    ¬((∃ x, findNextActionAt host t = some x ∧ x ≤ now) ↔
      ∃ row ∈ t.deliveries, selectable host t now row = true) := by
  let row := { plainDelivery with availableAt := "", updatedAt := "1969-12-31T23:59:59.999Z" }
  refine ⟨plainHost, oneDelivery row, "1969-12-31T23:59:59.999Z", by decide +kernel,
    by decide +kernel, fun hagrees => ?_⟩
  have hfound : selectable plainHost (oneDelivery row) "1969-12-31T23:59:59.999Z" row = true := by
    decide +kernel
  obtain ⟨x, hx, hle⟩ := hagrees.mpr ⟨row, List.mem_singleton_self row, hfound⟩
  have hepoch : findNextActionAt plainHost (oneDelivery row) = some epoch := by decide +kernel
  rw [hepoch] at hx
  cases hx
  exact absurd hle (by decide +kernel)

end MailPortal.Outbox
