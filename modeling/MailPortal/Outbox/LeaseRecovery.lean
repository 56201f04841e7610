import MailPortal.Outbox.Schedule

/-!
# The Recovery of Leases in the Store

`recoverExpiredLeases` over the Durable Object store. The store selects the rows that are sending
without a live lease; what it hands to the service is their hydration. A row that is refused is
handed over with the status `unknown`, and the service passes over it, since it is not sending:
it stays as it was, and the alarm rings for it again.

Main results:

* `needsRecovery_iff` : the rows that the service recovers.
* `recovery_complete_iff` : all rows that are selected are recovered when all of them hydrate and
  none has a lease that is still running for the service.
* `refused_row_stays` : a row that is refused stays sending.
-/

namespace MailPortal.Outbox

open TruthfulOutboxService

variable {host : StorageHost} {rest : OutboundDeliveryTransaction StorageTables}

/-- A row is out of the hands of its lease. -/
def Recovered (row : DeliveryRow) : Prop :=
  row.status = "retrying" ∧ row.nextAttemptAt.isSome = true ∨ row.status = "unknown"

/-! ### What the service is handed -/

/-- What a record takes from its row. -/
structure HydratedFrom (row : DeliveryRow) (delivery : StoredOutboundDelivery) : Prop where
  id : delivery.id = row.id
  status : deliveryStatus row.status = some delivery.status
  leaseToken : delivery.leaseToken = row.leaseToken
  leaseExpiresAt : delivery.leaseExpiresAt = row.leaseExpiresAt
  storage : delivery.storageIntegrityCode = none
  phase : phaseMetadataValid row = true → delivery.recoveryIntegrityCode = none

variable {delivery : StoredOutboundDelivery} {row : DeliveryRow}

theorem hydratedFrom {mailboxId : String} (h : deliveryRowToStored row mailboxId = some delivery) :
    HydratedFrom row delivery := by
  simp only [deliveryRowToStored, Option.bind_eq_bind, Option.bind_eq_some_iff,
    Option.guard_eq_some'] at h
  obtain ⟨-, -, _, -, _, -, _, -, _, -, _, -, _, -, _, -, status, hstatus, _, -, _, -, heq⟩ := h
  cases heq
  refine ⟨rfl, hstatus, rfl, rfl, rfl, fun hphase => ?_⟩
  -- a phase that agrees with its attempt is one of the two, or none
  simp only [phaseMetadataValid, Bool.or_eq_true, Bool.and_eq_true, Option.isNone_iff_eq_none,
    decide_eq_true_eq] at hphase
  rcases hphase with (⟨hnone, -⟩ | ⟨hpreflight, -⟩) | ⟨hprovider, -⟩
  · rw [hnone]
    rfl
  · rw [hpreflight]
    rfl
  · rw [hprovider]
    rfl

/-- A row that the service can recover: it is not refused, and if its metadata is valid its lease
has ended for the service. -/
structure Recoverable (host : StorageHost) (t : StorageTables) (now : String) (row : DeliveryRow) :
    Prop where
  hydrates : (tryHydrate host t row).isSome = true
  ended : phaseMetadataValid row = true → leaseMetadataValid row = true →
    ∀ x, row.leaseExpiresAt = some x → jsLe x now = true

theorem hydrateDelivery_sending {t : StorageTables} (hsending : row.status = "sending")
    (h : tryHydrate host t row = some delivery) :
    HydratedFrom row delivery ∧ delivery.status = .sending ∧
      hydrateDelivery host t row = delivery := by
  obtain ⟨mailboxId, -, hstored⟩ := Option.bind_eq_some_iff.mp h
  have hfrom := hydratedFrom hstored
  have hstatus : delivery.status = .sending := by
    have hsame := hfrom.status
    rw [hsending] at hsame
    exact (Option.some.inj hsame).symm
  refine ⟨hfrom, hstatus, ?_⟩
  rw [hydrateDelivery, h, Option.getD_some, if_neg (by rw [hstatus]; decide)]

theorem hydrateExpiredDelivery_id {t : StorageTables} (row : DeliveryRow) :
    (hydrateExpiredDelivery host t row).id = row.id := by
  have hid : (hydrateDelivery host t row).id = row.id := by
    have htry :
        ((tryHydrate host t row).getD (refusedDelivery row (mailboxIdentity host t row))).id =
        row.id := by
      cases h : tryHydrate host t row with
      | none => rfl
      | some delivery =>
          obtain ⟨mailboxId, -, hstored⟩ := Option.bind_eq_some_iff.mp h
          exact (hydratedFrom hstored).id
    rw [hydrateDelivery]
    split <;> exact htry
  rw [hydrateExpiredDelivery]
  split
  · exact hid
  split
  · exact hid
  split
  · exact hid
  · exact hid

/-- A row that is refused is handed over with another status. -/
theorem hydrateExpiredDelivery_refused {t : StorageTables} (h : tryHydrate host t row = none) :
    (hydrateExpiredDelivery host t row).status = .unknown := by
  have hrefused : hydrateDelivery host t row =
      refusedDelivery row (mailboxIdentity host t row) := by
    rw [hydrateDelivery, h, Option.getD_none]
    exact if_neg (show ¬OutboundDeliveryStatus.unknown = .cancelled by decide)
  rw [hydrateExpiredDelivery, hrefused]
  rfl

/-- A lease with valid metadata is there for the service. -/
theorem truthy_lease (h : leaseMetadataValid row = true) :
    truthy row.leaseToken = true ∧ ∃ x, row.leaseExpiresAt = some x ∧ x ≠ "" := by
  rw [leaseMetadataValid, Bool.and_eq_true, Option.any_eq_true, Option.any_eq_true] at h
  obtain ⟨⟨token, htoken, hblank⟩, x, hx, htime⟩ := h
  refine ⟨?_, x, hx, ?_⟩
  · rw [htoken, truthy, decide_eq_true_eq]
    rintro rfl
    cases hblank
  · rintro rfl
    cases htime

/-- **The rows that the service recovers.** -/
theorem needsRecovery_iff {t : StorageTables} {now : String} (hsending : row.status = "sending") :
    needsRecovery now (hydrateExpiredDelivery host t row) = true ↔ Recoverable host t now row := by
  cases htry : tryHydrate host t row with
  | none =>
      have hstatus := hydrateExpiredDelivery_refused htry
      constructor
      · intro h
        rw [needsRecovery, hstatus] at h
        cases h
      · intro h
        have hno := h.hydrates
        rw [htry] at hno
        cases hno
  | some delivery =>
      obtain ⟨hfrom, hstatus, hhydrate⟩ := hydrateDelivery_sending hsending htry
      have hsome : (tryHydrate host t row).isSome = true := by rw [htry]; rfl
      rw [hydrateExpiredDelivery, hhydrate, hfrom.storage, if_neg (by decide)]
      by_cases hphase : phaseMetadataValid row = true
      · by_cases hlease : leaseMetadataValid row = true
        · obtain ⟨htoken, x, hx, hne⟩ := truthy_lease hlease
          rw [if_pos (by rw [hphase, hlease]; rfl), needsRecovery, hstatus, hfrom.phase hphase,
            hfrom.leaseToken, hfrom.leaseExpiresAt, htoken, hx]
          have hneeds : (decide (OutboundDeliveryStatus.sending = .sending) &&
              ((none : Option RecoveryIntegrityCode).isSome ||
                (true && truthy (some x) && jsLe x now))) = true ↔ jsLe x now = true := by
            simp [truthy, hne]
          refine hneeds.trans ⟨fun h => ⟨hsome, fun _ _ y hy => ?_⟩, fun h =>
            h.ended hphase hlease x hx⟩
          rw [hx] at hy
          cases hy
          exact h
        · rw [if_neg (by simp [hlease]), if_pos hphase]
          exact ⟨fun _ => ⟨hsome, fun _ h => absurd h hlease⟩, fun _ =>
            by simp [needsRecovery, hstatus]⟩
      · rw [if_neg (by simp [hphase]), if_neg hphase]
        exact ⟨fun _ => ⟨hsome, fun h => absurd h hphase⟩, fun _ =>
          by simp [needsRecovery, hstatus]⟩

/-! ### What the service does -/

theorem storageTransaction_updateDelivery (delivery : StoredOutboundDelivery) (t : StorageTables) :
    (storageTransaction host rest).updateDelivery delivery t = .ok (updateDeliveryRow delivery t) :=
  rfl

theorem needsRecovery_sending {now : String} (h : needsRecovery now delivery = true) :
    delivery.status = .sending := by
  rw [needsRecovery, Bool.and_eq_true, decide_eq_true_eq] at h
  exact h.1

/-- Attempts are written next to the deliveries. -/
theorem updateAttempts_storage (attempts : List OutboundDeliveryAttempt) (t : StorageTables) :
    ∃ t', updateAttempts (storageTransaction host rest) attempts t = .ok t' ∧
      t'.deliveries = t.deliveries := by
  induction attempts generalizing t with
  | nil => exact ⟨t, rfl, rfl⟩
  | cons attempt attempts ih =>
      obtain ⟨t', hok, hsame⟩ := ih (updateAttemptRow attempt t)
      exact ⟨t', hok, hsame⟩

/-- What is written for a delivery: it goes back to the retries or becomes unknown. -/
structure Written (delivery : StoredOutboundDelivery) (t t' : StorageTables)
    (delivery' : StoredOutboundDelivery) : Prop where
  id : delivery'.id = delivery.id
  deliveries : t'.deliveries = t.deliveries.map (setIfDelivery delivery')
  status : delivery'.status = .retrying ∧ delivery'.nextAttemptAt.isSome = true ∨
    delivery'.status = .unknown

theorem recoverPreflight_storage {now : String} (t : StorageTables)
    (hsending : delivery.status = .sending) :
    ∃ recovered t' delivery',
      recoverPreflight (storageTransaction host rest) now delivery t = .ok (recovered, t') ∧
      Written delivery t t' delivery' := by
  have hretry : transitionDelivery delivery.status .scheduleRetry = .ok .retrying := by
    rw [hsending]
    rfl
  rw [recoverPreflight, hretry]
  refine ⟨_, _, _, rfl, ?_, rfl, .inl ⟨?_, ?_⟩⟩
  all_goals rfl

theorem recoverProvider_storage {now : String} {suspects : List OutboundDeliveryAttempt}
    (t : StorageTables) (hsending : delivery.status = .sending) :
    ∃ recovered t' delivery',
      recoverProvider (storageTransaction host rest) now delivery suspects t =
        .ok (recovered, t') ∧
      Written delivery t t' delivery' := by
  have hexpire : transitionDelivery delivery.status .leaseExpired = .ok .unknown := by
    rw [hsending]
    rfl
  choose next hok hsame using @updateAttempts_storage host rest
  simp only [recoverProvider, hexpire, storageTransaction_updateDelivery, hok, bind, Except.bind,
    pure, Except.pure]
  refine ⟨_, _, _, rfl, ?_, hsame _ _, .inr ?_⟩
  all_goals rfl

/-- A turn of the recovery. -/
theorem recoverExpiredDelivery_storage {now : String} (t : StorageTables)
    (h : needsRecovery now delivery = true) :
    ∃ recovered t' delivery',
      recoverExpiredDelivery (storageTransaction host rest) now delivery t = .ok (recovered, t') ∧
      Written delivery t t' delivery' := by
  have hsending := needsRecovery_sending h
  rw [recoverExpiredDelivery, if_pos h]
  dsimp only
  split
  · obtain ⟨recovered, t', delivery', hok, hwritten⟩ := recoverPreflight_storage t hsending
    rw [hok]
    exact ⟨_, _, _, rfl, hwritten⟩
  · obtain ⟨recovered, t', delivery', hok, hwritten⟩ := recoverProvider_storage t hsending
    rw [hok]
    exact ⟨_, _, _, rfl, hwritten⟩

/-- What a run over some records does to a row. -/
structure Outcome (now : String) (deliveries : List StoredOutboundDelivery)
    (row row' : DeliveryRow) :
    Prop where
  id : row'.id = row.id
  recovered : (∃ d ∈ deliveries, d.id = row.id ∧ needsRecovery now d = true) → Recovered row'
  kept : (∀ d ∈ deliveries, d.id = row.id → needsRecovery now d = false) → row' = row
  stays : Recovered row → Recovered row'

/-- What is written is recovered. -/
theorem recovered_setDelivery (row : DeliveryRow)
    (h : delivery.status = .retrying ∧ delivery.nextAttemptAt.isSome = true ∨
      delivery.status = .unknown) : Recovered (setDelivery delivery row) := by
  rcases h with ⟨hstatus, hnext⟩ | hstatus
  · exact .inl ⟨by rw [setDelivery, hstatus]; rfl, hnext⟩
  · exact .inr (by rw [setDelivery, hstatus]; rfl)

/-- One turn of the recovery and the rows. -/
theorem recoverTurn_storage (now : String) (delivery : StoredOutboundDelivery) (t : StorageTables) :
    ∃ recovered t',
      recoverExpiredDelivery (storageTransaction host rest) now delivery t = .ok (recovered, t') ∧
      ∀ row ∈ t.deliveries, ∃ row' ∈ t'.deliveries, Outcome now [delivery] row row' := by
  by_cases h : needsRecovery now delivery = true
  · obtain ⟨recovered, t', delivery', hok, hid, hdeliveries, hstatus⟩ :=
      recoverExpiredDelivery_storage t h
    refine ⟨recovered, t', hok, fun row hrow => ⟨setIfDelivery delivery' row, ?_, ?_⟩⟩
    · rw [hdeliveries]
      exact List.mem_map_of_mem hrow
    · by_cases hrow' : row.id = delivery.id
      · rw [setIfDelivery, if_pos (hrow'.trans hid.symm)]
        have hrecovered := recovered_setDelivery row hstatus
        refine ⟨rfl, fun _ => hrecovered, fun hno => ?_, fun _ => hrecovered⟩
        rw [hno delivery (List.mem_singleton_self delivery) hrow'.symm] at h
        cases h
      · rw [setIfDelivery, if_neg fun hsame => hrow' (hsame.trans hid)]
        refine ⟨rfl, ?_, fun _ => rfl, fun hrecovered => hrecovered⟩
        rintro ⟨d, hd, hsame, -⟩
        rw [List.mem_singleton.mp hd] at hsame
        exact absurd hsame.symm hrow'
  · refine ⟨none, t, ?_, fun row hrow => ⟨row, hrow, rfl, ?_, fun _ => rfl, fun hrow' => hrow'⟩⟩
    · rw [recoverExpiredDelivery, if_neg h]
      rfl
    · rintro ⟨d, hd, -, hneeds⟩
      rw [List.mem_singleton.mp hd] at hneeds
      exact absurd hneeds h

theorem Outcome.cons {now : String} {deliveries : List StoredOutboundDelivery}
    {row row₁ row₂ : DeliveryRow} (h₁ : Outcome now [delivery] row row₁)
    (h₂ : Outcome now deliveries row₁ row₂) : Outcome now (delivery :: deliveries) row row₂ := by
  refine ⟨h₂.id.trans h₁.id, ?_, fun hno => ?_, fun hrow => h₂.stays (h₁.stays hrow)⟩
  · rintro ⟨d, hd, hid, hneeds⟩
    rcases List.mem_cons.mp hd with rfl | hd
    · exact h₂.stays (h₁.recovered ⟨d, List.mem_singleton_self d, hid, hneeds⟩)
    · exact h₂.recovered ⟨d, hd, hid.trans h₁.id.symm, hneeds⟩
  · have hsame : row₁ = row := h₁.kept fun d hd =>
      hno d (List.mem_singleton.mp hd ▸ List.mem_cons_self)
    rw [h₂.kept fun d hd hid => hno d (List.mem_cons_of_mem delivery hd) (hsame ▸ hid), hsame]

/-- The loop of the recovery and the rows. -/
theorem recoverLoop_storage (now : String) (deliveries : List StoredOutboundDelivery)
    (t : StorageTables) :
    ∃ recovered t',
      recoverLoop (storageTransaction host rest) now deliveries t = .ok (recovered, t') ∧
      ∀ row ∈ t.deliveries, ∃ row' ∈ t'.deliveries, Outcome now deliveries row row' := by
  induction deliveries generalizing t with
  | nil =>
      refine ⟨[], t, rfl, fun row hrow => ⟨row, hrow, rfl, ?_, fun _ => rfl, fun hrow' => hrow'⟩⟩
      rintro ⟨d, hd, -⟩
      cases hd
  | cons delivery deliveries ih =>
      obtain ⟨one, t₁, hone, houtcome₁⟩ := @recoverTurn_storage host rest now delivery t
      obtain ⟨others, t₂, hothers, houtcome₂⟩ := ih t₁
      refine ⟨one.toList ++ others, t₂, ?_, fun row hrow => ?_⟩
      · rw [recoverLoop, hone]
        dsimp only [bind, Except.bind]
        rw [hothers]
        rfl
      · obtain ⟨row₁, hrow₁, h₁⟩ := houtcome₁ row hrow
        obtain ⟨row₂, hrow₂, h₂⟩ := houtcome₂ row₁ hrow₁
        exact ⟨row₂, hrow₂, h₁.cons h₂⟩

/-! ### The recovery is complete or not -/

/-- **The recovery is complete**: every row that is selected is left to the retries, with a time
for the next attempt, or unknown. -/
def RecoversAll (host : StorageHost) (rest : OutboundDeliveryTransaction StorageTables)
    (t : StorageTables) (now : String) : Prop :=
  ∃ recovered t', recoverExpiredLeases (storageTransaction host rest) now t = .ok (recovered, t') ∧
    ∀ row ∈ t.deliveries, Sql.holds (expiredSending host now row) = true →
      ∃ row' ∈ t'.deliveries, row'.id = row.id ∧ Recovered row'

/-- What the recovery does to a row that is selected. -/
theorem recovery_outcome (host : StorageHost) (rest : OutboundDeliveryTransaction StorageTables)
    (t : StorageTables) (now : String) :
    ∃ recovered t', recoverExpiredLeases (storageTransaction host rest) now t =
        .ok (recovered, t') ∧
      ∀ row ∈ t.deliveries, Sql.holds (expiredSending host now row) = true →
        ∃ row' ∈ t'.deliveries, row'.id = row.id ∧
          (Recoverable host t now row → Recovered row') ∧
          (¬Recoverable host t now row → row' = row) := by
  obtain ⟨recovered, t', hok, houtcome⟩ :=
    @recoverLoop_storage host rest now (listExpiredSending host now t) t
  refine ⟨recovered, t', hok, fun row hrow hselected => ?_⟩
  obtain ⟨row', hrow', hid, hrecovered, hkept, -⟩ := houtcome row hrow
  have hsending : row.status = "sending" := (expiredSending_iff.mp hselected).1
  refine ⟨row', hrow', hid, fun h => hrecovered ?_, fun h => hkept ?_⟩
  · refine ⟨hydrateExpiredDelivery host t row, ?_, hydrateExpiredDelivery_id row,
      (needsRecovery_iff hsending).mpr h⟩
    exact List.mem_map_of_mem (List.mem_filter.mpr ⟨hrow, hselected⟩)
  · intro d hd hsame
    obtain ⟨row₀, hrow₀, rfl⟩ := List.mem_map.mp hd
    rw [hydrateExpiredDelivery_id] at hsame
    -- the primary key: the record is the hydration of this row
    obtain rfl : row₀ = row :=
      List.inj_on_of_nodup_map t.deliveryKey (List.mem_filter.mp hrow₀).1 hrow hsame
    rw [← Bool.not_eq_true]
    exact mt (needsRecovery_iff hsending).mp h

/-- **A row that the service passes over stays sending**, and its lease ended. -/
theorem not_recoversAll {t : StorageTables} {now : String} (hrow : row ∈ t.deliveries)
    (hselected : Sql.holds (expiredSending host now row) = true) (h : ¬Recoverable host t now row) :
    ¬RecoversAll host rest t now := by
  rintro ⟨recovered, t', hok, hall⟩
  obtain ⟨recovered₁, t₁, hok₁, houtcome⟩ := recovery_outcome host rest t now
  cases hok.symm.trans hok₁
  obtain ⟨row₁, hrow₁, hid₁, -, hkept⟩ := houtcome row hrow hselected
  obtain rfl : row₁ = row := hkept h
  obtain ⟨row₂, hrow₂, hid₂, hrecovered⟩ := hall row₁ hrow hselected
  obtain rfl : row₂ = row₁ := List.inj_on_of_nodup_map t'.deliveryKey hrow₂ hrow₁ hid₂
  have hsending : row₂.status = "sending" := (expiredSending_iff.mp hselected).1
  rcases hrecovered with ⟨hstatus, -⟩ | hstatus
  · exact absurd (hsending.symm.trans hstatus) (by decide)
  · exact absurd (hsending.symm.trans hstatus) (by decide)

/-- **When the recovery is complete**: when no row that is selected is refused, and none has valid
metadata and a lease that has not ended for the service. -/
theorem recovery_complete_iff (host : StorageHost)
    (rest : OutboundDeliveryTransaction StorageTables) (t : StorageTables) (now : String) :
    RecoversAll host rest t now ↔
      ∀ row ∈ t.deliveries, Sql.holds (expiredSending host now row) = true →
        Recoverable host t now row := by
  constructor
  · intro hall row hrow hselected
    by_contra h
    exact not_recoversAll hrow hselected h hall
  · intro hall
    obtain ⟨recovered, t', hok, houtcome⟩ := recovery_outcome host rest t now
    refine ⟨recovered, t', hok, fun row hrow hselected => ?_⟩
    obtain ⟨row', hrow', hid, hrecovered, -⟩ := houtcome row hrow hselected
    exact ⟨row', hrow', hid, hrecovered (hall row hrow hselected)⟩

/-- A delivery with a count below zero, whose preflight lease has ended. -/
def refusedRow : DeliveryRow :=
  { plainDelivery with
    status := "sending"
    attemptCount := some (-1)
    dispatchPhase := some "preflight"
    leaseToken := some "lease-1"
    leaseExpiresAt := some "2026-07-11T10:00:30.000Z" }

/-- **It is selected and stays sending.** -/
theorem refused_row_stays : ∃ (host : StorageHost) (t : StorageTables) (now : String),
    ∀ rest : OutboundDeliveryTransaction StorageTables, ¬RecoversAll host rest t now := by
  refine ⟨plainHost, oneDelivery refusedRow, "2026-07-11T10:00:40.000Z", fun rest => ?_⟩
  have hrefused : (tryHydrate plainHost (oneDelivery refusedRow) refusedRow).isSome = false := by
    decide +kernel
  refine not_recoversAll (List.mem_singleton_self refusedRow) (by decide +kernel) fun h => ?_
  rw [h.hydrates] at hrefused
  cases hrefused

end MailPortal.Outbox
