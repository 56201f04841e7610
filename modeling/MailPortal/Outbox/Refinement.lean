import MailPortal.Outbox.Faithful
import MailPortal.Outbox.Invariant
import MailPortal.Outbox.Service

/-!
# The Methods Refine the Lifecycle

Over a faithful store each method of the service, when it succeeds, is a sequence of
lifecycle writes: one lemma a method, ending in `…_writes`. The lemmas about the leases
come first, since every method that takes a token starts with them.

`Writes t acks tokens u` is the shape all of them have: some writes lead from `t` to `u`,
they acknowledge exactly `acks`, and they issue no tokens but `tokens`.
-/

namespace MailPortal.Outbox

open Failure TruthfulOutboxService OutboundDeliveryStatus

variable {σ : Type}
variable {t u : OutboxTables} {d' d : StoredOutboundDelivery} {a : OutboundDeliveryAttempt}
  {createId : IdPrefix → String} {actor : OutboundDeliveryActor} {atTime now : String}
  {result : FinalizedDeliveryAttempt} {details : DefinitiveFailureDetails}
  {recovered : RecoveredDeliveryLease}
variable {assertRetryAllowed : StoredOutboundDelivery → Except OutboxError Unit}
  {leaseDurationMs : JsNumber} {token : String} {atts : List OutboundDeliveryAttempt}

/-- Some writes lead from `t` to `u`, acknowledge `acks` and issue tokens out of `tokens`. -/
def Writes (t : OutboxTables) (acks tokens : List String) (u : OutboxTables) : Prop :=
  ∃ labels, LifecyclePath t labels u ∧ acknowledged labels = acks ∧
    claimedTokens labels ⊆ tokens

theorem Writes.none (t : OutboxTables) : Writes t [] [] t :=
  ⟨[], .nil, rfl, List.Subset.refl _⟩

/-- A silent write. -/
theorem LifecycleStep.writes (h : LifecycleStep t .silent u) : Writes t [] [] u :=
  ⟨[.silent], h.path, rfl, List.Subset.refl _⟩

/-- Silent writes followed by others. -/
theorem Writes.trans {v : OutboxTables} {acks tokens : List String} (h : Writes t [] [] u)
    (h' : Writes u acks tokens v) : Writes t acks tokens v := by
  obtain ⟨ls, hpath, hacks, htokens⟩ := h
  obtain ⟨ms, hpath', hacks', htokens'⟩ := h'
  refine ⟨ls ++ ms, hpath.append hpath', ?_, ?_⟩
  · rw [acknowledged_append, hacks, hacks', List.nil_append]
  · rw [claimedTokens_append, List.subset_nil.mp htokens, List.nil_append]
    exact htokens'

/-- Fewer tokens may be issued than are allowed. -/
theorem Writes.mono {acks : List String} (h : Writes t acks [] u) (tokens : List String) :
    Writes t acks tokens u := by
  obtain ⟨labels, hpath, hacks, htokens⟩ := h
  exact ⟨labels, hpath, hacks, List.Subset.trans htokens (List.nil_subset _)⟩

/-- The invariant after the writes of a method. -/
theorem Inv.writes {acks acks' tokens : List String} (h : Inv acks t)
    (hwrites : Writes t acks' tokens u) : Inv (acks ++ acks') u := by
  obtain ⟨labels, hpath, rfl, -⟩ := hwrites
  exact h.path hpath

/-- The delivery `id` holds no lease. -/
def Released (t : OutboxTables) (id : String) : Prop :=
  ∀ d ∈ t.deliveries, d.id = id → Unleased d

/-- Replacing a delivery by one without a lease releases it. -/
theorem Released.updateDelivery (h : Unleased d') (t : OutboxTables) :
    Released (t.updateDelivery d') d'.id := by
  intro r hr hid
  rcases Table.mem_update hr with rfl | ⟨-, hne⟩
  · exact h
  · exact absurd hid hne

/-- Replacing a delivery by one without a lease takes no other delivery's release back. -/
theorem Released.updateDelivery_other {id : String} (hid : Released t id) (h : Unleased d') :
    Released (t.updateDelivery d') id := by
  intro r hr hrid
  rcases Table.mem_update hr with rfl | ⟨hmem, -⟩
  · exact h
  · exact hid r hmem hrid

/-- Silent writes that release the delivery `id` and no new lease. -/
structure Releases (t : OutboxTables) (id : String) (u : OutboxTables) : Prop where
  writes : Writes t [] [] u
  released : Released u id

section Methods

variable {tx : OutboundDeliveryTransaction σ} {view : σ → OutboxTables} {acks : List String}
  {s s' : σ} {service : TruthfulOutboxService} {deliveryId leaseToken : String}

/-! ### Leases -/

/-- What a provider lease token owns: the delivery that holds it and the attempt in flight. -/
structure Owned (t : OutboxTables) (deliveryId leaseToken : String) (d : StoredOutboundDelivery)
    (a : OutboundDeliveryAttempt) : Prop where
  mem : d ∈ t.deliveries
  id : d.id = deliveryId
  status : d.status = .sending
  leaseToken : d.leaseToken = some leaseToken
  dispatchPhase : d.dispatchPhase = some .provider
  activeAttemptId : d.activeAttemptId = some a.id
  attempt : a ∈ t.attempts
  deliveryId : a.deliveryId = d.id

/-- `#requireLease` returns what the token owns. -/
theorem requireLease_owned (h : Faithful tx view)
    (hok : requireLease tx deliveryId leaseToken s = .ok (d, a)) :
    Owned (view s) deliveryId leaseToken d a := by
  simp only [requireLease, bind_eq_ok, orThrow_eq_ok, require_eq_ok] at hok
  obtain ⟨delivery, hget, -, hlease, hrest⟩ := hok
  obtain ⟨hmem, hid⟩ := h.getDelivery_mem hget
  simp only [Bool.and_eq_true, decide_eq_true_eq] at hlease
  obtain ⟨⟨⟨hstatus, htoken⟩, hphase⟩, -⟩ := hlease
  split at hrest
  · next attempt heq =>
      simp only [bind_eq_ok, require_eq_ok, pure_eq_ok, decide_eq_true_eq] at hrest
      obtain ⟨-, hactive, hpair⟩ := hrest
      obtain ⟨rfl, rfl⟩ := Prod.mk.inj hpair
      have hfound : attempt ∈ tx.listAttemptsByDelivery deliveryId s :=
        List.mem_of_mem_filter (heq ▸ List.mem_singleton_self attempt)
      obtain ⟨hattempt, hdelivery⟩ := h.mem_listAttempts.mp hfound
      exact ⟨hmem, hid, hstatus, htoken, hphase, hactive, hattempt, hdelivery.trans hid.symm⟩
  · cases hrest

/-- What a preflight lease token owns. -/
structure Preflighted (t : OutboxTables) (deliveryId leaseToken : String)
    (d : StoredOutboundDelivery) : Prop where
  mem : d ∈ t.deliveries
  id : d.id = deliveryId
  status : d.status = .sending
  leaseToken : d.leaseToken = some leaseToken
  dispatchPhase : d.dispatchPhase = some .preflight

section

variable (h : Faithful tx view)
include h

/-- `#requirePreflightLease` returns what the token owns. -/
theorem requirePreflightLease_preflighted
    (hok : requirePreflightLease tx deliveryId leaseToken s = .ok d) :
    Preflighted (view s) deliveryId leaseToken d := by
  simp only [requirePreflightLease, bind_eq_ok, orThrow_eq_ok, require_eq_ok, pure_eq_ok] at hok
  obtain ⟨delivery, hget, -, hlease, rfl⟩ := hok
  obtain ⟨hmem, hid⟩ := h.getDelivery_mem hget
  simp only [Bool.and_eq_true, decide_eq_true_eq] at hlease
  obtain ⟨⟨⟨hstatus, hphase⟩, htoken⟩, -⟩ := hlease
  exact ⟨hmem, hid, hstatus, htoken, hphase⟩

/-- Parking a waiting or preflighted delivery. -/
theorem park_releases (hwrite : tx.updateDelivery d' s = .ok s') (hd : d ∈ (view s).deliveries)
    (hsucceeds : Succeeds d d') (hfrom : d.status = .queued ∨ d.status = .retrying ∨
      (d.status = .sending ∧ d.dispatchPhase = some .preflight)) (hparked : Parked d') :
    Releases (view s) d'.id (view s') := by
  rw [h.updateDelivery _ _ _ hwrite]
  exact ⟨(LifecycleStep.park hd hsucceeds hfrom hparked).writes,
    Released.updateDelivery hparked.unleased _⟩

/-- Settling the attempt a token owns together with its delivery. -/
theorem settle_releases {a' : OutboundDeliveryAttempt} {s₁ : σ}
    (hwrite : tx.updateDelivery d' s = .ok s₁) (hwrite' : tx.updateAttempt a' s₁ = .ok s')
    (howned : Owned (view s) deliveryId leaseToken d a) (hsucceeds : Succeeds d d')
    (hid : a'.id = a.id) (hdelivery : a'.deliveryId = a.deliveryId)
    (hnumber : a'.attemptNumber = a.attemptNumber) (htoken : a'.leaseToken = a.leaseToken)
    (htrusted : a'.storageIntegrityCode = a.storageIntegrityCode)
    (hsettled : Settlement a'.status d') : Releases (view s) d'.id (view s') := by
  rw [h.updateAttempt _ _ _ hwrite', h.updateDelivery _ _ _ hwrite]
  exact ⟨(LifecycleStep.settle howned.mem hsucceeds howned.status howned.dispatchPhase
    howned.activeAttemptId howned.attempt howned.deliveryId hid hdelivery hnumber htoken htrusted
    hsettled).writes, Released.updateDelivery hsettled.unleased _⟩

/-! ### Enqueue and cancel -/

theorem enqueue_writes {command : EnqueueOutboundCommand}
    {onCommitted : EnqueuedDelivery → Except OutboxError Unit} {result : EnqueuedDelivery}
    (hok : enqueue service tx createId command onCommitted s = .ok (result, s')) :
    Writes (view s) [] [] (view s') := by
  simp only [enqueue, bind_eq_ok] at hok
  obtain ⟨-, -, hok⟩ := hok
  split at hok
  · simp only [bind_eq_ok, pure_eq_ok, Prod.mk.injEq] at hok
    obtain ⟨_, -, -, -, -, rfl⟩ := hok
    exact .none _
  · simp only [bind_eq_ok] at hok
    obtain ⟨sourceDraft, -, hok⟩ := hok
    split at hok
    · simp only [bind_eq_ok, pure_eq_ok, Prod.mk.injEq] at hok
      obtain ⟨_, -, -, -, -, rfl⟩ := hok
      exact .none _
    · simp only [bind_eq_ok, pure_eq_ok, Prod.mk.injEq] at hok
      obtain ⟨-, -, s₁, hsnapshot, s₂, hinsert, -, -, -, rfl⟩ := hok
      obtain ⟨hnew, hview⟩ := h.insertDelivery _ _ _ hinsert
      rw [hview, ← h.insertSnapshot _ _ _ _ hsnapshot]
      exact (LifecycleStep.enqueue hnew rfl rfl ⟨rfl, rfl, rfl, rfl⟩ rfl rfl rfl).writes

end

/-- A restored retry is parked. -/
theorem restoreRetryOrigin_parked (d : StoredOutboundDelivery) (origin : RetryOriginStatus)
    (actor : OutboundDeliveryActor) (atTime : String) :
    Parked (restoreRetryOrigin d origin actor atTime) where
  unleased := ⟨rfl, rfl, rfl, rfl⟩
  status := by cases origin <;> simp [restoreRetryOrigin, RetryOriginStatus.status]
  origin := nofun

theorem cancel_releases (h : Faithful tx view) (hinv : Inv acks (view s))
    {onCommitted : StoredOutboundDelivery → CancelOutcome → Except OutboxError Unit}
    {result : DeliveryMutationResult}
    (hok : cancel tx deliveryId actor atTime onCommitted s = .ok (result, s')) :
    Releases (view s) result.delivery.id (view s') := by
  simp only [cancel, bind_eq_ok, orThrow_eq_ok, require_eq_ok] at hok
  obtain ⟨d, hget, -, -, -, hcancel, hok⟩ := hok
  obtain ⟨hd, -⟩ := h.getDelivery_mem hget
  have hwaiting : d.status = .queued ∨ d.status = .retrying := by
    simpa [canCancelDelivery] using hcancel
  have hfrom : d.status = .queued ∨ d.status = .retrying ∨
      (d.status = .sending ∧ d.dispatchPhase = some .preflight) := by tauto
  split at hok
  · next origin _ =>
      simp only [bind_eq_ok, pure_eq_ok, Prod.mk.injEq] at hok
      obtain ⟨s₁, hwrite, -, -, rfl, rfl⟩ := hok
      exact park_releases h hwrite hd ⟨rfl, rfl, rfl, rfl⟩ hfrom (restoreRetryOrigin_parked _ _ _ _)
  · next horigin =>
      simp only [bind_eq_ok, pure_eq_ok, Prod.mk.injEq] at hok
      obtain ⟨status, htransition, s₁, hwrite, -, -, rfl, rfl⟩ := hok
      obtain rfl : cancelled = status := by
        have htable := transitionDelivery_ok htransition
        rcases hwaiting with hs | hs <;> rw [hs] at htable <;> exact Option.some.inj htable
      have hunleased := ((hinv.coherent d hd).idle
        (by rcases hwaiting with hs | hs <;> rw [hs] <;> exact nofun)).1
      refine park_releases h hwrite hd ⟨rfl, rfl, rfl, rfl⟩ hfrom ?_
      exact ⟨⟨hunleased.leaseToken, hunleased.leaseExpiresAt, hunleased.dispatchPhase,
        hunleased.activeAttemptId⟩, .inr (.inr (.inr rfl)), by simp [horigin]⟩

/-! ### Preflight -/

theorem deferPreflight_releases (h : Faithful tx view) {details : RetryableFailureDetails}
    {result : PreflightMutationResult}
    (hok : deferPreflight tx deliveryId leaseToken details s = .ok (result, s')) :
    Releases (view s) result.delivery.id (view s') := by
  simp only [deferPreflight, bind_eq_ok, pure_eq_ok, Prod.mk.injEq] at hok
  obtain ⟨d, hlease, -, -, status, htransition, s₁, hwrite, rfl, rfl⟩ := hok
  have hpre := requirePreflightLease_preflighted h hlease
  have htable := transitionDelivery_ok htransition
  rw [hpre.status] at htable
  obtain rfl : retrying = status := Option.some.inj htable
  refine park_releases h hwrite hpre.mem ⟨rfl, rfl, rfl, rfl⟩ (.inr (.inr ⟨hpre.status,
    hpre.dispatchPhase⟩)) ?_
  exact ⟨⟨rfl, rfl, rfl, rfl⟩, .inl ⟨rfl, rfl⟩, fun _ => rfl⟩

/-- A failure that no retry follows parks the delivery. -/
theorem settleFailed_parked (d : StoredOutboundDelivery) (details : DefinitiveFailureDetails)
    (masked : String) : Parked (settleFailed d details masked) where
  unleased := ⟨rfl, rfl, rfl, rfl⟩
  status := by
    by_cases hfrom : d.retryOriginStatus = some .unknown <;> simp [settleFailed, hfrom]
  origin := nofun

section

variable (h : Faithful tx view)
include h

theorem failPreflight_releases {result : PreflightMutationResult}
    (hok : failPreflight tx deliveryId leaseToken details s = .ok (result, s')) :
    Releases (view s) result.delivery.id (view s') := by
  simp only [failPreflight, bind_eq_ok, pure_eq_ok, Prod.mk.injEq] at hok
  obtain ⟨d, hlease, -, -, s₁, hwrite, rfl, rfl⟩ := hok
  have hpre := requirePreflightLease_preflighted h hlease
  exact park_releases h hwrite hpre.mem ⟨rfl, rfl, rfl, rfl⟩ (.inr (.inr ⟨hpre.status,
    hpre.dispatchPhase⟩)) (settleFailed_parked _ _ _)

theorem beginProviderAttempt_writes {attemptId : String} {providerLeaseDurationMs : JsNumber}
    {result : ClaimedDelivery}
    (hok : beginProviderAttempt service tx deliveryId leaseToken attemptId atTime
      providerLeaseDurationMs s = .ok (result, s')) : Writes (view s) [] [] (view s') := by
  simp only [beginProviderAttempt, bind_eq_ok, pure_eq_ok, Prod.mk.injEq, orThrow_eq_ok] at hok
  obtain ⟨d, hlease, -, -, -, -, snapshot, -, expiresAt, -, s₁, hwrite, s₂, hinsert, -, rfl⟩ := hok
  have hpre := requirePreflightLease_preflighted h hlease
  obtain ⟨hnew, hview⟩ := h.insertAttempt _ _ _ hinsert
  have hdelivery := h.updateDelivery _ _ _ hwrite
  rw [hview, hdelivery]
  rw [hdelivery] at hnew
  refine LifecycleStep.writes (.begin hpre.mem ?_ ?_ ?_ ?_ hpre.status hpre.dispatchPhase
    hpre.leaseToken ?_ ?_ ?_ ?_ ?_ hnew ?_ ?_ ?_ ?_ ?_)
  all_goals first | rfl | exact hpre.status | exact hpre.leaseToken | exact hpre.id.symm

/-! ### Finalizing -/

theorem finalizeRetryableFailure_releases {details : RetryableFailureDetails}
    (hok : finalizeRetryableFailure tx deliveryId leaseToken details s = .ok (result, s')) :
    Releases (view s) result.delivery.id (view s') := by
  simp only [finalizeRetryableFailure, bind_eq_ok, pure_eq_ok, Prod.mk.injEq] at hok
  obtain ⟨⟨d, a⟩, hlease, status, hstatus, s₁, hwrite, s₂, hwrite', rfl, rfl⟩ := hok
  have howned := requireLease_owned h hlease
  refine settle_releases h hwrite hwrite' howned ⟨rfl, rfl, rfl, rfl⟩ rfl rfl rfl rfl rfl ?_
  refine .rejectedRetryable ⟨⟨rfl, rfl, rfl, rfl⟩, ?_, ?_⟩
  · by_cases hexhausted : d.maxAttempts ≤ d.attemptCount
    · by_cases hunknown : d.retryOriginStatus = some .unknown
      · simp only [hexhausted, hunknown, decide_true, Bool.and_self, if_true, pure_eq_ok] at hstatus
        exact .inr (.inr (.inl hstatus.symm))
      · simp only [hexhausted, hunknown, decide_true, decide_false, Bool.and_false, if_true,
          Bool.false_eq_true, if_false] at hstatus
        have htable := transitionDelivery_ok hstatus
        rw [howned.status] at htable
        exact .inr (.inl (Option.some.inj htable).symm)
    · simp only [hexhausted, decide_false, Bool.false_and, Bool.false_eq_true, if_false] at hstatus
      have htable := transitionDelivery_ok hstatus
      rw [howned.status] at htable
      exact .inl ⟨(Option.some.inj htable).symm, by simp [hexhausted]⟩
  · by_cases hexhausted : d.maxAttempts ≤ d.attemptCount
    · simp [hexhausted]
    · simp only [hexhausted, decide_false, Bool.false_and, Bool.false_eq_true, if_false] at hstatus
      have htable := transitionDelivery_ok hstatus
      rw [howned.status] at htable
      exact fun _ => (Option.some.inj htable).symm

theorem finalizeDefinitiveFailure_releases
    (hok : finalizeDefinitiveFailure tx deliveryId leaseToken details s = .ok (result, s')) :
    Releases (view s) result.delivery.id (view s') := by
  simp only [finalizeDefinitiveFailure, bind_eq_ok, pure_eq_ok, Prod.mk.injEq] at hok
  obtain ⟨⟨d, a⟩, hlease, s₁, hwrite, s₂, hwrite', rfl, rfl⟩ := hok
  exact settle_releases h hwrite hwrite' (requireLease_owned h hlease) ⟨rfl, rfl, rfl, rfl⟩ rfl rfl
    rfl rfl rfl (.rejectedPermanent (settleFailed_parked _ _ _))

theorem finalizeUnknown_releases
    (hok : finalizeUnknown tx deliveryId leaseToken details s = .ok (result, s')) :
    Releases (view s) result.delivery.id (view s') := by
  simp only [finalizeUnknown, bind_eq_ok, pure_eq_ok, Prod.mk.injEq] at hok
  obtain ⟨⟨d, a⟩, hlease, status, htransition, s₁, hwrite, s₂, hwrite', rfl, rfl⟩ := hok
  have howned := requireLease_owned h hlease
  have htable := transitionDelivery_ok htransition
  simp only [howned.status] at htable
  obtain rfl : unknown = status := Option.some.inj htable
  exact settle_releases h hwrite hwrite' howned ⟨rfl, rfl, rfl, rfl⟩ rfl rfl rfl rfl rfl
    (.unknown rfl ⟨⟨rfl, rfl, rfl, rfl⟩, .inr (.inr (.inl rfl)), nofun⟩)

theorem finalizeAccepted_releases {sesMessageId : String}
    (hok : finalizeAccepted tx deliveryId leaseToken sesMessageId atTime s = .ok (result, s')) :
    Releases (view s) result.delivery.id (view s') := by
  simp only [finalizeAccepted, bind_eq_ok, pure_eq_ok, Prod.mk.injEq] at hok
  obtain ⟨-, -, ⟨d, a⟩, hlease, status, htransition, s₁, hwrite, s₂, hwrite', s₃, hrecord,
    rfl, rfl⟩ := hok
  have howned := requireLease_owned h hlease
  have htable := transitionDelivery_ok htransition
  simp only [howned.status] at htable
  obtain rfl : sent = status := Option.some.inj htable
  have hview : view s₃ = view s₂ := by
    split at hrecord
    · next record heq => exact h.acceptedRecovery _ heq _ _ _ _ hrecord
    · rw [pure_eq_ok] at hrecord; rw [hrecord]
  rw [hview]
  exact settle_releases h hwrite hwrite' howned ⟨rfl, rfl, rfl, rfl⟩ rfl rfl rfl rfl rfl
    (.accepted rfl ⟨rfl, rfl, rfl, rfl⟩ rfl)

end

/-! ### Retries and bounces -/

section

variable (h : Faithful tx view) (hinv : Inv acks (view s))
include h hinv

theorem retryFailed_writes {result : DeliveryMutationResult}
    (hok : retryFailed tx deliveryId actor atTime assertRetryAllowed s = .ok (result, s')) :
    Writes (view s) [] [] (view s') := by
  simp only [retryFailed, bind_eq_ok, pure_eq_ok, Prod.mk.injEq, orThrow_eq_ok] at hok
  obtain ⟨d, hget, -, -, -, -, status, htransition, -, -, s₁, hwrite, -, rfl⟩ := hok
  obtain ⟨hd, -⟩ := h.getDelivery_mem hget
  obtain ⟨hstatus, rfl⟩ := transitionDelivery_retryFailed htransition
  have hunleased := ((hinv.coherent d hd).idle (by rw [hstatus]; exact nofun)).1
  rw [h.updateDelivery _ _ _ hwrite]
  refine LifecycleStep.writes (.reopen hd ⟨rfl, rfl, rfl, rfl⟩ hstatus rfl ?_)
  exact ⟨hunleased.leaseToken, hunleased.leaseExpiresAt, hunleased.dispatchPhase,
    hunleased.activeAttemptId⟩

theorem retryUnknown_writes {acknowledgeDuplicateRisk : Bool} {result : DeliveryMutationResult}
    (hok : retryUnknown tx deliveryId actor acknowledgeDuplicateRisk atTime assertRetryAllowed s =
      .ok (result, s')) : Writes (view s) [deliveryId] [] (view s') := by
  simp only [retryUnknown, bind_eq_ok, pure_eq_ok, Prod.mk.injEq, orThrow_eq_ok] at hok
  obtain ⟨-, -, d, hget, -, -, status, htransition, -, -, s₁, hwrite, -, rfl⟩ := hok
  obtain ⟨hd, rfl⟩ := h.getDelivery_mem hget
  obtain ⟨hstatus, rfl⟩ := transitionDelivery_forceRetryUnknown htransition
  have hunleased := ((hinv.coherent d hd).idle (by rw [hstatus]; exact nofun)).1
  rw [h.updateDelivery _ _ _ hwrite]
  refine ⟨[.acknowledge d.id], LifecycleStep.path (.acknowledge hd ⟨rfl, rfl, rfl, rfl⟩ hstatus
    rfl ?_), rfl, List.Subset.refl _⟩
  exact ⟨hunleased.leaseToken, hunleased.leaseExpiresAt, hunleased.dispatchPhase,
    hunleased.activeAttemptId⟩

theorem markBounced_writes {details : BounceDetails} {result : StoredOutboundDelivery}
    (hok : markBounced tx deliveryId details s = .ok (result, s')) :
    Writes (view s) [] [] (view s') := by
  simp only [markBounced, bind_eq_ok, pure_eq_ok, Prod.mk.injEq, orThrow_eq_ok] at hok
  obtain ⟨d, hget, -, -, status, htransition, s₁, hwrite, -, rfl⟩ := hok
  obtain ⟨hd, -⟩ := h.getDelivery_mem hget
  obtain ⟨hstatus, rfl⟩ := transitionDelivery_providerBounced htransition
  have hunleased := ((hinv.coherent d hd).idle
    (by rcases hstatus with hs | hs <;> rw [hs] <;> exact nofun)).1
  rw [h.updateDelivery _ _ _ hwrite]
  refine LifecycleStep.writes (.bounce hd ⟨rfl, rfl, rfl, rfl⟩ hstatus rfl ?_ rfl)
  exact ⟨hunleased.leaseToken, hunleased.leaseExpiresAt, hunleased.dispatchPhase,
    hunleased.activeAttemptId⟩

/-! ### Claiming -/

/-- What the search for a due delivery finds, in a store without broken dispatch records. -/
theorem nextDispatchable_waiting {candidate : DispatchableDeliveryCandidate}
    (hok : nextDispatchable service tx now s = .ok (some candidate)) :
    ∃ d, candidate = .ready d ∧ d ∈ (view s).deliveries ∧
      (d.status = .queued ∨ d.status = .retrying) := by
  simp only [nextDispatchable, bind_eq_ok] at hok
  obtain ⟨indexed, hindexed, hok⟩ := hok
  split at hok
  · next candidate' =>
      obtain rfl : candidate' = candidate := Option.some.inj (pure_eq_ok.mp hok)
      split at hindexed
      · next find hfind =>
          cases candidate' with
          | ready d => exact ⟨d, rfl, h.readyCandidate find hfind _ _ _ hindexed⟩
          | integrityFailure failure =>
              obtain ⟨d, hd, hwaiting, hbroken⟩ := h.brokenCandidate find hfind _ _ _ hindexed
              refine absurd ((hinv.coherent d hd).idle ?_).1 hbroken
              rcases hwaiting with hs | hs <;> rw [hs] <;> exact nofun
      · cases hindexed
  · simp only [bind_eq_ok, pure_eq_ok, Option.map_eq_some_iff] at hok
    obtain ⟨candidates, hcandidates, d, hfirst, rfl⟩ := hok
    obtain ⟨hd, hdue⟩ := List.mem_filter.mp (sortFirst_mem hfirst)
    refine ⟨d, rfl, ?_, ?_⟩
    · split at hcandidates
      · next find hfind =>
          simp only [bind_eq_ok, pure_eq_ok] at hcandidates
          obtain ⟨found, hfound, rfl⟩ := hcandidates
          obtain rfl : found = some d := by simpa using hd
          exact h.nextDispatchable find hfind _ _ _ hfound
      · rw [pure_eq_ok] at hcandidates
        exact (h.listDeliveries s).mem_iff.mp (hcandidates ▸ hd)
    · simp only [isDispatchable, Bool.or_eq_true, Bool.and_eq_true, decide_eq_true_eq] at hdue
      rcases hdue with ⟨hs, -⟩ | ⟨hs, -⟩
      · exact .inl hs
      · exact .inr hs

end

/-- A delivery without its snapshot is parked. -/
theorem failMissingSnapshot_parked (d : StoredOutboundDelivery) (now : String) :
    Parked (failMissingSnapshot d now) where
  unleased := ⟨rfl, rfl, rfl, rfl⟩
  status := by
    by_cases hfrom : d.retryOriginStatus = some .unknown <;> simp [failMissingSnapshot, hfrom]
  origin := nofun

theorem claimDelivery_writes (h : Faithful tx view) {snapshot : OutboundMessageSnapshot}
    {result : ClaimedPreflight} (hd : d ∈ (view s).deliveries)
    (hwaiting : d.status = .queued ∨ d.status = .retrying)
    (hnew : ¬ Recorded (view s) (createId .lease))
    (hok : claimDelivery service tx createId now leaseDurationMs d snapshot s = .ok (result, s')) :
    Writes (view s) [] [createId .lease] (view s') := by
  simp only [claimDelivery, bind_eq_ok, pure_eq_ok, Prod.mk.injEq, orThrow_eq_ok] at hok
  obtain ⟨expiresAt, -, ready, hready, status, htransition, s₁, hwrite, -, rfl⟩ := hok
  obtain rfl : sending = status := by
    have hqueued : ready = .queued := by
      rcases hwaiting with hs | hs
      · rw [if_neg (by rw [hs]; exact nofun), pure_eq_ok, hs] at hready
        exact hready.symm
      · rw [if_pos hs, hs] at hready
        exact (Option.some.inj (transitionDelivery_ok hready)).symm
    rw [hqueued] at htransition
    exact Option.some.inj (transitionDelivery_ok htransition)
  rw [h.updateDelivery _ _ _ hwrite]
  refine ⟨[.claim (createId .lease)], LifecycleStep.path (.claim hd ⟨rfl, rfl, rfl, rfl⟩ hwaiting
    rfl rfl rfl rfl rfl ?_ ?_), rfl, List.Subset.refl _⟩
  · exact fun a ha htoken => hnew (.inr ⟨a, ha, htoken⟩)
  · exact fun r hr htoken => hnew (.inl ⟨r.id, r, hr, rfl, htoken⟩)

/-- The claim loop parks the deliveries whose snapshot is gone and claims at most one. -/
theorem claimLoop_writes (h : Faithful tx view) {inspections : ℕ} {result : Option ClaimedPreflight}
    (hinv : Inv acks (view s)) (hnew : ¬ Recorded (view s) (createId .lease))
    (hok : claimLoop service tx createId now leaseDurationMs inspections s = .ok (result, s')) :
    Writes (view s) [] [createId .lease] (view s') := by
  induction inspections generalizing s with
  | zero =>
      cases hok
      exact (Writes.none _).mono _
  | succ inspections ih =>
      simp only [claimLoop, bind_eq_ok] at hok
      obtain ⟨candidate, hcandidate, hok⟩ := hok
      cases candidate with
      | none =>
          cases hok
          exact (Writes.none _).mono _
      | some candidate =>
          obtain ⟨d, rfl, hd, hwaiting⟩ := nextDispatchable_waiting h hinv hcandidate
          have hfrom : d.status = .queued ∨ d.status = .retrying ∨
              (d.status = .sending ∧ d.dispatchPhase = some .preflight) := by tauto
          simp only at hok
          split at hok
          · simp only [bind_eq_ok] at hok
            obtain ⟨s₁, hwrite, hok⟩ := hok
            have hparked := (park_releases h hwrite hd ⟨rfl, rfl, rfl, rfl⟩ hfrom
              (failMissingSnapshot_parked d now)).writes
            have hinv' : Inv acks (view s₁) := by simpa using hinv.writes hparked
            have hnew' : ¬ Recorded (view s₁) (createId .lease) := by
              intro hrecorded
              obtain ⟨labels, hpath, -, htokens⟩ := hparked
              rcases hpath.recorded hrecorded with hold | hlabel
              · exact hnew hold
              · exact absurd (htokens hlabel) List.not_mem_nil
            exact hparked.trans (ih hinv' hnew' hok)
          · simp only [bind_eq_ok, pure_eq_ok, Prod.mk.injEq] at hok
            obtain ⟨⟨claimed, s₁⟩, hclaim, -, rfl⟩ := hok
            exact claimDelivery_writes h hd hwaiting hnew hclaim

/-! ### Lease recovery -/

/-- A preflight lease has no suspects. -/
theorem PreflightLease.recoverySuspects (hlease : PreflightLease d token atts)
    (htoken : d.leaseToken = some token) (htrusted : ∀ a ∈ atts, a.storageIntegrityCode = none)
    (haccepted : atts.countP isAccepted = 0) : recoverySuspects d atts = [] := by
  refine List.filter_eq_nil_iff.mpr fun a ha => ?_
  obtain ⟨hsending, hother⟩ := hlease.attempts a ha
  have hnot : a.status ≠ .accepted := by
    simpa [isAccepted] using List.countP_eq_zero.mp haccepted a ha
  simp [htrusted a ha, htoken, hsending, hother.symm, hnot]

/-- The one suspect of a provider lease is the attempt in flight. -/
theorem ProviderLease.recoverySuspects {active : OutboundDeliveryAttempt}
    (hlease : ProviderLease d token atts active) (hnd : (atts.map (·.id)).Nodup)
    (htoken : d.leaseToken = some token) (htrusted : ∀ a ∈ atts, a.storageIntegrityCode = none)
    (haccepted : atts.countP isAccepted = 0) : recoverySuspects d atts = [active] := by
  refine Table.filter_eq_singleton hnd hlease.mem (by simp [hlease.status]) fun a ha hne => ?_
  obtain ⟨hsending, hother⟩ := hlease.others a ha hne
  have hnot : a.status ≠ .accepted := by
    simpa [isAccepted] using List.countP_eq_zero.mp haccepted a ha
  simp [htrusted a ha, htoken, hsending, hother.symm, hnot]

/-- One turn of the recovery loop releases the delivery it reports, and leaves the others as
they are. -/
structure Recovers (t : OutboxTables) (d : StoredOutboundDelivery)
    (result : Option RecoveredDeliveryLease) (u : OutboxTables) : Prop where
  writes : Writes t [] [] u
  others : ∀ r ∈ t.deliveries, r.id ≠ d.id → r ∈ u.deliveries
  released : ∀ id, Released t id → Released u id
  reported : ∀ recovered ∈ result, Released u recovered.delivery.id

/-- A turn that replaces the delivery by one without a lease. -/
theorem Releases.recovers (h : Releases t d'.id u) (hid : d'.id = d.id) (hunleased : Unleased d')
    (hdeliveries : u.deliveries = Table.update (·.id) d' t.deliveries)
    (hreport : recovered.delivery = d') : Recovers t d (some recovered) u where
  writes := h.writes
  others := by
    intro r hr hne
    rw [hdeliveries]
    exact Table.mem_update_of_ne hr (hid ▸ hne)
  released := by
    intro id hold r hr
    rw [hdeliveries] at hr
    exact Released.updateDelivery_other hold hunleased r hr
  reported := by
    rintro _ ⟨⟩
    rw [hreport]
    exact h.released

section

variable (h : Faithful tx view)
include h

/-- A preflight lease goes back to the retries. -/
theorem recoverPreflight_recovers (hd : d ∈ (view s).deliveries) (hstatus : d.status = .sending)
    (hphase : d.dispatchPhase = some .preflight)
    (hok : recoverPreflight tx now d s = .ok (recovered, s')) :
    Recovers (view s) d (some recovered) (view s') := by
  simp only [recoverPreflight, bind_eq_ok, pure_eq_ok, Prod.mk.injEq] at hok
  obtain ⟨status, htransition, s₁, hwrite, rfl, rfl⟩ := hok
  have htable := transitionDelivery_ok htransition
  rw [hstatus] at htable
  obtain rfl : retrying = status := Option.some.inj htable
  have hreleases := park_releases h hwrite hd ⟨rfl, rfl, rfl, rfl⟩
    (.inr (.inr ⟨hstatus, hphase⟩)) ⟨⟨rfl, rfl, rfl, rfl⟩, .inl ⟨rfl, rfl⟩, fun _ => rfl⟩
  refine hreleases.recovers rfl ⟨rfl, rfl, rfl, rfl⟩ ?_ rfl
  rw [h.updateDelivery _ _ _ hwrite]
  rfl

/-- A provider lease with one suspect settles as unknown. -/
theorem recoverProvider_recovers (howned : Owned (view s) deliveryId leaseToken d a)
    (hsending : a.status = .sending) (hok : recoverProvider tx now d [a] s = .ok (recovered, s')) :
    Recovers (view s) d (some recovered) (view s') := by
  simp only [recoverProvider, bind_eq_ok, pure_eq_ok, hsending, ne_eq, reduceCtorEq,
    not_false_eq_true, decide_true, List.filter_cons_of_pos, List.filter_nil, List.map_cons,
    List.map_nil, updateAttempts] at hok
  obtain ⟨status, htransition, s₁, hwrite, s₂, ⟨s₃, hwrite', rfl⟩, hpair⟩ := hok
  cases hpair
  have htable := transitionDelivery_ok htransition
  rw [howned.status] at htable
  obtain rfl : unknown = status := Option.some.inj htable
  have hreleases := settle_releases h hwrite hwrite' howned ⟨rfl, rfl, rfl, rfl⟩ rfl rfl rfl rfl
    rfl (.unknown rfl ⟨⟨rfl, rfl, rfl, rfl⟩, .inr (.inr (.inl rfl)), nofun⟩)
  refine hreleases.recovers rfl ⟨rfl, rfl, rfl, rfl⟩ ?_ rfl
  rw [h.updateAttempt _ _ _ hwrite', h.updateDelivery _ _ _ hwrite]
  rfl

/-- One turn of the recovery loop over a stored delivery. In a coherent store the suspects
are none in preflight and the attempt in flight at the provider. -/
theorem recoverExpiredDelivery_recovers (hinv : Inv acks (view s))
    {result : Option RecoveredDeliveryLease} (hd : d ∈ (view s).deliveries)
    (hok : recoverExpiredDelivery tx now d s = .ok (result, s')) :
    Recovers (view s) d result (view s') := by
  have hcoherent := hinv.coherent d hd
  unfold recoverExpiredDelivery at hok
  split at hok
  · next hneeds =>
      have hstatus : d.status = .sending := by
        simp only [needsRecovery, Bool.and_eq_true, decide_eq_true_eq] at hneeds
        exact hneeds.1
      have hperm := h.listAttemptsByDelivery d.id s
      have haccepted : (tx.listAttemptsByDelivery d.id s).countP isAccepted = 0 := by
        rw [hperm.countP_eq]
        exact (hinv.budget d hd).no_accepted (by rw [hstatus]; exact ⟨nofun, nofun⟩)
      have htrusted : ∀ a ∈ tx.listAttemptsByDelivery d.id s, a.storageIntegrityCode = none :=
        fun a ha => hcoherent.trustedAttempts a (hperm.mem_iff.mp ha)
      have hnd : ((tx.listAttemptsByDelivery d.id s).map (·.id)).Nodup :=
        ((hperm.map _).nodup_iff).mpr (hinv.attemptIds.sublist (List.filter_sublist.map _))
      simp only [bind_eq_ok, pure_eq_ok, Prod.mk.injEq] at hok
      obtain ⟨⟨recovered, s₁⟩, hrecover, rfl, rfl⟩ := hok
      obtain ⟨token, htoken, -, hlease⟩ := hcoherent.leased hstatus
      rcases hlease with hpre | ⟨active, hprovider⟩
      · have hpre' : PreflightLease d token (tx.listAttemptsByDelivery d.id s) :=
          ⟨hpre.dispatchPhase, hpre.activeAttemptId,
            fun a ha => hpre.attempts a (hperm.mem_iff.mp ha)⟩
        rw [hpre'.recoverySuspects htoken htrusted haccepted,
          if_pos (by simp [hpre.dispatchPhase, hcoherent.trusted.1])] at hrecover
        exact recoverPreflight_recovers h hd hstatus hpre.dispatchPhase hrecover
      · have hprovider' : ProviderLease d token (tx.listAttemptsByDelivery d.id s) active :=
          ⟨hprovider.dispatchPhase, hprovider.activeAttemptId, hperm.mem_iff.mpr hprovider.mem,
            hprovider.status, hprovider.leaseToken,
            fun a ha => hprovider.others a (hperm.mem_iff.mp ha)⟩
        rw [hprovider'.recoverySuspects hnd htoken htrusted haccepted,
          if_neg (by simp [hprovider.dispatchPhase])] at hrecover
        obtain ⟨hattempt, hdelivery⟩ := OutboxTables.mem_attemptsOf.mp hprovider.mem
        have howned : Owned (view s) d.id token d active := ⟨hd, rfl, hstatus, htoken,
          hprovider.dispatchPhase, hprovider.activeAttemptId, hattempt, hdelivery⟩
        exact recoverProvider_recovers h howned hprovider.status hrecover
  · cases hok
    refine ⟨.none _, fun r hr _ => hr, fun _ hid => hid, fun _ hr => ?_⟩
    cases hr

/-- The loop over candidates that are all stored. Each turn leaves the candidates that come
after it as they are, so they are stored when their turn comes. -/
theorem recoverLoop_releases {candidates : List StoredOutboundDelivery}
    {result : List RecoveredDeliveryLease} (hinv : Inv acks (view s))
    (hnd : (candidates.map (·.id)).Nodup) (hmem : ∀ d ∈ candidates, d ∈ (view s).deliveries)
    (hok : recoverLoop tx now candidates s = .ok (result, s')) :
    Writes (view s) [] [] (view s') ∧ (∀ id, Released (view s) id → Released (view s') id) ∧
      ∀ recovered ∈ result, Released (view s') recovered.delivery.id := by
  induction candidates generalizing s result with
  | nil =>
      cases hok
      exact ⟨.none _, fun _ hid => hid, fun _ hr => absurd hr List.not_mem_nil⟩
  | cons d candidates ih =>
      obtain ⟨hhead, htail⟩ := List.nodup_cons.mp hnd
      simp only [recoverLoop, bind_eq_ok, pure_eq_ok, Prod.mk.injEq] at hok
      obtain ⟨⟨recovered, s₁⟩, hturn, ⟨others, s₂⟩, hrest, rfl, rfl⟩ := hok
      have hfirst := recoverExpiredDelivery_recovers h hinv (hmem d List.mem_cons_self) hturn
      have hstored : ∀ r ∈ candidates, r ∈ (view s₁).deliveries := fun r hr =>
        hfirst.others r (hmem r (List.mem_cons_of_mem d hr))
          fun he => hhead (List.mem_map.mpr ⟨r, hr, he⟩)
      obtain ⟨hwrites, hkeep, hreported⟩ :=
        ih (by simpa using hinv.writes hfirst.writes) htail hstored hrest
      refine ⟨hfirst.writes.trans hwrites, fun id hid => hkeep id (hfirst.released id hid), ?_⟩
      intro r hr
      rcases List.mem_append.mp hr with hmem' | hmem'
      · exact hkeep _ (hfirst.reported r (Option.mem_toList.mp hmem'))
      · exact hreported r hmem'

theorem recoverExpiredLeases_releases (hinv : Inv acks (view s))
    {result : List RecoveredDeliveryLease}
    (hok : recoverExpiredLeases tx now s = .ok (result, s')) :
    Writes (view s) [] [] (view s') ∧
      ∀ recovered ∈ result, Released (view s') recovered.delivery.id := by
  simp only [recoverExpiredLeases, bind_eq_ok] at hok
  obtain ⟨⟨candidates, s₁⟩, hcandidates, hok⟩ := hok
  split at hcandidates
  · next list hlist =>
      obtain ⟨hview, hnd, hmem⟩ := h.expiredSending list hlist _ _ _ _ hcandidates
      rw [← hview] at hinv hmem ⊢
      obtain ⟨hwrites, -, hreported⟩ := recoverLoop_releases h hinv hnd hmem hok
      exact ⟨hwrites, hreported⟩
  · cases hcandidates
    have hperm := h.listDeliveries s
    obtain ⟨hwrites, -, hreported⟩ := recoverLoop_releases h hinv
      (((hperm.map _).nodup_iff).mpr hinv.deliveryIds) (fun d hd => hperm.mem_iff.mp hd) hok
    exact ⟨hwrites, hreported⟩

/-! ### Stale tokens -/

/-- A token that no delivery holds fails `#requireLease`. -/
theorem requireLease_stale (hstale : ∀ id, ¬ Holds (view s) id leaseToken) :
    requireLease tx deliveryId leaseToken s = .error (.deliveryLease deliveryId) := by
  cases hget : tx.getDelivery deliveryId s with
  | none => rw [requireLease, hget, orThrow, error_bind]
  | some d =>
      obtain ⟨hd, -⟩ := h.getDelivery_mem hget
      have hne : d.leaseToken ≠ some leaseToken := fun htoken => hstale d.id ⟨d, hd, rfl, htoken⟩
      rw [requireLease, hget, orThrow, ok_bind, require, if_neg (by simp [hne]), error_bind]

/-- A token that no delivery holds fails `#requirePreflightLease`. -/
theorem requirePreflightLease_stale (hstale : ∀ id, ¬ Holds (view s) id leaseToken) :
    requirePreflightLease tx deliveryId leaseToken s = .error (.deliveryLease deliveryId) := by
  cases hget : tx.getDelivery deliveryId s with
  | none => rw [requirePreflightLease, hget, orThrow, error_bind]
  | some d =>
      obtain ⟨hd, -⟩ := h.getDelivery_mem hget
      have hne : d.leaseToken ≠ some leaseToken := fun htoken => hstale d.id ⟨d, hd, rfl, htoken⟩
      rw [requirePreflightLease, hget, orThrow, ok_bind, require, if_neg (by simp [hne]),
        error_bind]

end

end Methods

end MailPortal.Outbox
