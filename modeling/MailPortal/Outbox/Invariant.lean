import MailPortal.Outbox.Lifecycle

/-!
# The Invariant of the Outbox

`Inv` says that every delivery is `Coherent` and within its `Budget`, and that keys and
lease tokens are unique. The two are kept together, since a settled attempt is only
recognised as the one in flight because the lease is coherent.

Main results:

* `Inv.step` and `Inv.path`: every write keeps the invariant, and so does every sequence of
  writes;
* `LifecyclePath.held`: a lease token that is held after a sequence of writes was held
  before it or issued on the way, by the same delivery.
-/

namespace MailPortal.Outbox

open OutboxTables Table

variable {status : OutboundDeliveryAttemptStatus} {label : LifecycleLabel}
  {labels : List LifecycleLabel}
variable {acks' : List String} {t' : OutboxTables}

/-- The invariant of the outbox, for the list `acks` of acknowledged deliveries. -/
structure Inv (acks : List String) (t : OutboxTables) : Prop where
  deliveryIds : (t.deliveries.map (·.id)).Nodup
  attemptIds : (t.attempts.map (·.id)).Nodup
  owned : ∀ a ∈ t.attempts, ∃ d ∈ t.deliveries, d.id = a.deliveryId
  leases : ∀ d ∈ t.deliveries, ∀ d' ∈ t.deliveries, ∀ token,
    d.leaseToken = some token → d'.leaseToken = some token → d.id = d'.id
  coherent : ∀ d ∈ t.deliveries, Coherent d (t.attemptsOf d.id)
  budget : ∀ d ∈ t.deliveries, Budget (acks.count d.id) d (t.attemptsOf d.id)

/-- The empty outbox. -/
theorem Inv.empty {t : OutboxTables} (hd : t.deliveries = []) (ha : t.attempts = []) :
    Inv [] t := by
  constructor <;> simp [hd, ha]

/-- Acknowledging more keeps the budget. -/
theorem Budget.mono {m n : ℕ} {d : StoredOutboundDelivery} {atts : List OutboundDeliveryAttempt}
    (h : Budget m d atts) (hmn : m ≤ n) : Budget n d atts :=
  ⟨h.ambiguous.trans (Nat.add_le_add_right hmn _), h.accepted, h.final⟩

/-- **Replacing one delivery.** The invariant survives when the new version of a delivery
is coherent and within budget against the attempts it then has, the attempts of the other
deliveries are untouched, and its lease token is its own. -/
theorem Inv.updateDelivery {acks : List String} {t u : OutboxTables} {d d' : StoredOutboundDelivery}
    (h : Inv acks t) (hid : d'.id = d.id)
    (hdeliveries : u.deliveries = update (·.id) d' t.deliveries)
    (hattemptIds : (u.attempts.map (·.id)).Nodup)
    (howned : ∀ a ∈ u.attempts, ∃ r ∈ t.deliveries, r.id = a.deliveryId)
    (hothers : ∀ id, id ≠ d.id → u.attemptsOf id = t.attemptsOf id)
    (hacks : ∀ id, acks.count id ≤ acks'.count id) (htoken : ∀ token, d'.leaseToken = some token →
      ∀ r ∈ t.deliveries, r.leaseToken = some token → r.id = d.id)
    (hcoherent : Coherent d' (u.attemptsOf d.id))
    (hbudget : Budget (acks'.count d.id) d' (u.attemptsOf d.id)) : Inv acks' u where
  deliveryIds := by rw [hdeliveries, map_key_update]; exact h.deliveryIds
  attemptIds := hattemptIds
  owned := by
    intro a ha
    obtain ⟨r, hr, hra⟩ := howned a ha
    have hmem : a.deliveryId ∈ u.deliveries.map (·.id) := by
      rw [hdeliveries, map_key_update, ← hra]
      exact List.mem_map_of_mem hr
    exact List.mem_map.mp hmem
  leases := by
    intro r hr r' hr' token hrt hrt'
    rw [hdeliveries] at hr hr'
    rcases mem_update hr with rfl | ⟨hmem, hne⟩
    · rcases mem_update hr' with rfl | ⟨hmem', hne'⟩
      · rfl
      · exact absurd (htoken token hrt r' hmem' hrt') (hid ▸ hne')
    · rcases mem_update hr' with rfl | ⟨hmem', hne'⟩
      · exact absurd (htoken token hrt' r hmem hrt) (hid ▸ hne)
      · exact h.leases r hmem r' hmem' token hrt hrt'
  coherent := by
    intro r hr
    rw [hdeliveries] at hr
    rcases mem_update hr with rfl | ⟨hr, hne⟩
    · rw [hid]; exact hcoherent
    · rw [hothers r.id (hid ▸ hne)]; exact h.coherent r hr
  budget := by
    intro r hr
    rw [hdeliveries] at hr
    rcases mem_update hr with rfl | ⟨hr, hne⟩
    · rw [hid]; exact hbudget
    · rw [hothers r.id (hid ▸ hne)]; exact (h.budget r hr).mono (hacks r.id)

/-- The common case: the attempts are untouched. -/
theorem Inv.updateDelivery_only {acks : List String} {t : OutboxTables}
    {d d' : StoredOutboundDelivery} (h : Inv acks t) (hid : d'.id = d.id)
    (hacks : ∀ id, acks.count id ≤ acks'.count id) (htoken : ∀ token, d'.leaseToken = some token →
      ∀ r ∈ t.deliveries, r.leaseToken = some token → r.id = d.id)
    (hcoherent : Coherent d' (t.attemptsOf d.id))
    (hbudget : Budget (acks'.count d.id) d' (t.attemptsOf d.id)) :
    Inv acks' (t.updateDelivery d') :=
  h.updateDelivery hid rfl h.attemptIds h.owned (fun _ _ => rfl) hacks htoken hcoherent
    hbudget

/-- A delivery without a lease holds no token. -/
theorem Unleased.token_ne {d : StoredOutboundDelivery} (h : Unleased d) {token : String} :
    d.leaseToken ≠ some token := by
  rw [h.leaseToken]; exact nofun

/-! ### What coherence says -/

section Coherent

variable {d d' : StoredOutboundDelivery} {atts : List OutboundDeliveryAttempt} {acks : ℕ}

/-- No attempt is in flight while the delivery is not at the provider. -/
theorem Coherent.not_sending (h : Coherent d atts)
    (hfrom : d.status = .queued ∨ d.status = .retrying ∨
      (d.status = .sending ∧ d.dispatchPhase = some .preflight)) :
    ∀ a ∈ atts, a.status ≠ .sending := by
  intro a ha
  by_cases hsending : d.status = .sending
  · have hphase : d.dispatchPhase = some .preflight := by
      rcases hfrom with hq | hr | ⟨-, hphase⟩
      · rw [hq] at hsending; cases hsending
      · rw [hr] at hsending; cases hsending
      · exact hphase
    obtain ⟨token, -, -, hlease⟩ := h.leased hsending
    rcases hlease with hpre | ⟨active, hprovider⟩
    · exact (hpre.attempts a ha).1
    · have hne := hphase.symm.trans hprovider.dispatchPhase
      cases hne
  · exact (h.idle hsending).2 a ha

/-- A preflighted delivery has a preflight lease. -/
theorem Coherent.preflightLease (h : Coherent d atts) (hstatus : d.status = .sending)
    (hphase : d.dispatchPhase = some .preflight) :
    ∃ token, d.leaseToken = some token ∧ PreflightLease d token atts := by
  obtain ⟨token, htoken, -, hlease⟩ := h.leased hstatus
  rcases hlease with hpre | ⟨active, hprovider⟩
  · exact ⟨token, htoken, hpre⟩
  · have hne := hphase.symm.trans hprovider.dispatchPhase
    cases hne

/-- A delivery at the provider has a provider lease. -/
theorem Coherent.providerLease (h : Coherent d atts) (hstatus : d.status = .sending)
    (hphase : d.dispatchPhase = some .provider) :
    ∃ token active, d.leaseToken = some token ∧ ProviderLease d token atts active := by
  obtain ⟨token, htoken, -, hlease⟩ := h.leased hstatus
  rcases hlease with hpre | ⟨active, hprovider⟩
  · have hne := hphase.symm.trans hpre.dispatchPhase
    cases hne
  · exact ⟨token, active, htoken, hprovider⟩

/-- A delivery that holds no lease is coherent as soon as none of its attempts is in
flight. -/
theorem Coherent.of_unleased (h : Coherent d atts) (hsucceeds : Succeeds d d')
    (hunleased : Unleased d') (hstatus : d'.status ≠ .sending)
    (hattempts : ∀ a ∈ atts, a.status ≠ .sending)
    (hdue : d'.status = .retrying → d'.nextAttemptAt.isSome)
    (horigin : d'.retryOriginStatus.isSome →
      d'.status = .queued ∨ d'.status = .sending ∨ d'.status = .retrying) :
    Coherent d' atts where
  numbers := by rw [hsucceeds.attemptCount]; exact h.numbers
  trusted := by
    rw [hsucceeds.recoveryIntegrityCode, hsucceeds.storageIntegrityCode]
    exact h.trusted
  trustedAttempts := h.trustedAttempts
  idle := fun _ => ⟨hunleased, hattempts⟩
  leased := fun hsending => absurd hsending hstatus
  due := hdue
  origin := horigin

/-- A parked delivery is not sending. -/
theorem Parked.not_sending (h : Parked d) : d.status ≠ .sending := by
  rcases h.status with ⟨hs, -⟩ | hs | hs | hs <;> rw [hs] <;> exact nofun

/-- A parked delivery is coherent when none of its attempts is in flight. -/
theorem Coherent.of_parked (h : Coherent d atts) (hsucceeds : Succeeds d d')
    (hparked : Parked d') (hattempts : ∀ a ∈ atts, a.status ≠ .sending) :
    Coherent d' atts := by
  refine h.of_unleased hsucceeds hparked.unleased hparked.not_sending hattempts ?_ ?_
  · intro hretrying
    rcases hparked.status with ⟨-, hdue⟩ | hs | hs | hs
    · exact hdue
    all_goals rw [hs] at hretrying; cases hretrying
  · exact fun horigin => .inr (.inr (hparked.origin horigin))

/-- The attempts of a delivery that has not ended at the provider are within the
acknowledged ones. -/
theorem Budget.of_not_atProvider (h : Budget acks d atts) (hd : atProvider d = false) :
    atts.countP isAmbiguous ≤ acks := by
  have hle := h.ambiguous
  rw [hd] at hle
  exact hle

/-- Nothing is known to be accepted unless the delivery says so. -/
theorem Budget.no_accepted (h : Budget acks d atts)
    (hd : d.status ≠ .sent ∧ d.status ≠ .bounced) : atts.countP isAccepted = 0 := by
  by_contra hne
  rcases h.final (Nat.pos_of_ne_zero hne) with hs | hs
  · exact hd.1 hs
  · exact hd.2 hs

/-- A count within the acknowledged attempts is within budget for every status, as long as
nothing was accepted. -/
theorem Budget.of_le (hambiguous : atts.countP isAmbiguous ≤ acks)
    (haccepted : atts.countP isAccepted = 0) : Budget acks d atts where
  ambiguous := hambiguous.trans (Nat.le_add_right _ _)
  accepted := by omega
  final := by omega

end Coherent

/-! ### One lemma per step -/

section Steps

variable {acks : List String} {t : OutboxTables} {d d' : StoredOutboundDelivery}

/-- The attempts of a delivery that does not exist yet. -/
theorem Inv.attemptsOf_new (h : Inv acks t) {id : String} (hnew : ∀ r ∈ t.deliveries, r.id ≠ id) :
    t.attemptsOf id = [] := by
  refine List.eq_nil_iff_forall_not_mem.mpr fun a ha => ?_
  obtain ⟨hmem, hdelivery⟩ := mem_attemptsOf.mp ha
  obtain ⟨r, hr, hra⟩ := h.owned a hmem
  exact hnew r hr (hra.trans hdelivery)

theorem Inv.enqueue (h : Inv acks t) (hnew : ∀ r ∈ t.deliveries, r.id ≠ d.id)
    (hstatus : d.status = .queued) (hcount : d.attemptCount = 0) (hunleased : Unleased d)
    (horigin : d.retryOriginStatus = none) (hrecovery : d.recoveryIntegrityCode = none)
    (hstorage : d.storageIntegrityCode = none) : Inv acks (t.insertDelivery d) where
  deliveryIds := by
    rw [insertDelivery_deliveries, List.map_append]
    refine List.Nodup.append h.deliveryIds (List.nodup_singleton _) ?_
    intro id hid hid'
    obtain ⟨r, hr, rfl⟩ := List.mem_map.mp hid
    exact hnew r hr (List.mem_singleton.mp hid')
  attemptIds := h.attemptIds
  owned := by
    intro a ha
    obtain ⟨r, hr, hra⟩ := h.owned a ha
    exact ⟨r, List.mem_append_left _ hr, hra⟩
  leases := by
    intro r hr r' hr' token hrt hrt'
    rcases List.mem_append.mp hr with hmem | hmem
    · rcases List.mem_append.mp hr' with hmem' | hmem'
      · exact h.leases r hmem r' hmem' token hrt hrt'
      · obtain rfl := List.mem_singleton.mp hmem'
        exact absurd hrt' hunleased.token_ne
    · obtain rfl := List.mem_singleton.mp hmem
      exact absurd hrt hunleased.token_ne
  coherent := by
    intro r hr
    rcases List.mem_append.mp hr with hmem | hmem
    · exact h.coherent r hmem
    · obtain rfl := List.mem_singleton.mp hmem
      rw [attemptsOf_congr (insertDelivery_attempts _ t),
        h.attemptsOf_new hnew]
      constructor <;> simp [hstatus, hcount, hunleased, horigin, hrecovery, hstorage]
  budget := by
    intro r hr
    rcases List.mem_append.mp hr with hmem | hmem
    · exact h.budget r hmem
    · obtain rfl := List.mem_singleton.mp hmem
      rw [attemptsOf_congr (insertDelivery_attempts _ t),
        h.attemptsOf_new hnew]
      exact Budget.of_le (Nat.zero_le _) rfl

/-- A waiting delivery is not at the provider. -/
theorem atProvider_of_waiting (h : d.status = .queued ∨ d.status = .retrying ∨
    (d.status = .sending ∧ d.dispatchPhase = some .preflight)) : atProvider d = false := by
  rcases h with hs | hs | ⟨hs, hphase⟩ <;> simp [atProvider, *]

theorem Inv.claim (h : Inv acks t) {token : String} (hd : d ∈ t.deliveries)
    (hsucceeds : Succeeds d d') (hwaiting : d.status = .queued ∨ d.status = .retrying)
    (hstatus : d'.status = .sending) (hphase : d'.dispatchPhase = some .preflight)
    (hactive : d'.activeAttemptId = none) (htoken : d'.leaseToken = some token)
    (hexpires : d'.leaseExpiresAt.isSome) (hnewAttempt : ∀ a ∈ t.attempts, a.leaseToken ≠ token)
    (hnewLease : ∀ r ∈ t.deliveries, r.leaseToken ≠ some token) :
    Inv acks (t.updateDelivery d') := by
  have hfrom : d.status = .queued ∨ d.status = .retrying ∨
      (d.status = .sending ∧ d.dispatchPhase = some .preflight) := by tauto
  have hcoherent := h.coherent d hd
  have hbudget := h.budget d hd
  refine h.updateDelivery_only hsucceeds.id (fun _ => le_rfl) ?_ ?_ ?_
  · intro token' htoken' r hr hrt
    rw [htoken] at htoken'
    exact absurd (htoken' ▸ hrt) (hnewLease r hr)
  · exact {
      numbers := by rw [hsucceeds.attemptCount]; exact hcoherent.numbers
      trusted := by
        rw [hsucceeds.recoveryIntegrityCode, hsucceeds.storageIntegrityCode]
        exact hcoherent.trusted
      trustedAttempts := hcoherent.trustedAttempts
      idle := fun hne => absurd hstatus hne
      leased := fun _ => ⟨token, htoken, hexpires, .inl ⟨hphase, hactive, fun a ha =>
        ⟨hcoherent.not_sending hfrom a ha,
          hnewAttempt a (mem_attemptsOf.mp ha).1⟩⟩⟩
      due := fun hretrying => by rw [hstatus] at hretrying; cases hretrying
      origin := fun _ => .inr (.inl hstatus) }
  · refine Budget.of_le (hbudget.of_not_atProvider (atProvider_of_waiting hfrom))
      (hbudget.no_accepted ?_)
    rcases hwaiting with hs | hs <;> rw [hs] <;> exact ⟨nofun, nofun⟩

theorem Inv.park (h : Inv acks t) (hd : d ∈ t.deliveries) (hsucceeds : Succeeds d d')
    (hfrom : d.status = .queued ∨ d.status = .retrying ∨
      (d.status = .sending ∧ d.dispatchPhase = some .preflight)) (hparked : Parked d') :
    Inv acks (t.updateDelivery d') := by
  have hcoherent := h.coherent d hd
  have hbudget := h.budget d hd
  refine h.updateDelivery_only hsucceeds.id (fun _ => le_rfl) ?_ ?_ ?_
  · exact fun _ htoken => absurd htoken hparked.unleased.token_ne
  · exact hcoherent.of_parked hsucceeds hparked (hcoherent.not_sending hfrom)
  · refine Budget.of_le (hbudget.of_not_atProvider (atProvider_of_waiting hfrom))
      (hbudget.no_accepted ?_)
    rcases hfrom with hs | hs | ⟨hs, -⟩ <;> rw [hs] <;> exact ⟨nofun, nofun⟩

/-- Reopening a settled delivery: `acks'` has one more acknowledgement of a delivery that
may have been accepted. -/
theorem Inv.requeue (h : Inv acks t) (hd : d ∈ t.deliveries) (hsucceeds : Succeeds d d')
    (hstatus : d.status = .failed ∨ d.status = .unknown) (hstatus' : d'.status = .queued)
    (hunleased : Unleased d') (hacks : ∀ id, acks.count id ≤ acks'.count id)
    (hpaid : d.status = .unknown → acks.count d.id < acks'.count d.id) :
    Inv acks' (t.updateDelivery d') := by
  have hcoherent := h.coherent d hd
  have hbudget := h.budget d hd
  have hidle := hcoherent.idle (by rcases hstatus with hs | hs <;> rw [hs] <;> exact nofun)
  refine h.updateDelivery_only hsucceeds.id hacks ?_ ?_ ?_
  · exact fun _ htoken => absurd htoken hunleased.token_ne
  · refine hcoherent.of_unleased hsucceeds hunleased ?_ hidle.2 ?_ fun _ => .inl hstatus'
    · rw [hstatus']; exact nofun
    · intro hretrying; rw [hstatus'] at hretrying; cases hretrying
  · refine Budget.of_le ?_ (hbudget.no_accepted ?_)
    · have hle := hbudget.ambiguous
      rcases hstatus with hs | hs
      · have hmono := hacks d.id
        simp only [atProvider, hs] at hle
        exact hle.trans hmono
      · have hmore := hpaid hs
        have hone : (if atProvider d then 1 else 0) ≤ 1 := by split <;> omega
        omega
    · rcases hstatus with hs | hs <;> rw [hs] <;> exact ⟨nofun, nofun⟩

theorem Inv.bounce (h : Inv acks t) (hd : d ∈ t.deliveries) (hsucceeds : Succeeds d d')
    (hstatus : d.status = .sent ∨ d.status = .unknown) (hstatus' : d'.status = .bounced)
    (hunleased : Unleased d') (horigin : d'.retryOriginStatus = none) :
    Inv acks (t.updateDelivery d') := by
  have hcoherent := h.coherent d hd
  have hbudget := h.budget d hd
  have hidle := hcoherent.idle (by rcases hstatus with hs | hs <;> rw [hs] <;> exact nofun)
  refine h.updateDelivery_only hsucceeds.id (fun _ => le_rfl) ?_ ?_ ?_
  · exact fun _ htoken => absurd htoken hunleased.token_ne
  · refine hcoherent.of_unleased hsucceeds hunleased ?_ hidle.2 ?_ ?_
    · rw [hstatus']; exact nofun
    · intro hretrying; rw [hstatus'] at hretrying; cases hretrying
    · intro hsome; rw [horigin] at hsome; cases hsome
  · refine ⟨?_, hbudget.accepted, fun _ => .inr hstatus'⟩
    have hle := hbudget.ambiguous
    have hone : atProvider d' = true := by simp [atProvider, hstatus']
    rw [hone, if_pos rfl]
    have hbound : (if atProvider d then 1 else 0) ≤ 1 := by split <;> omega
    omega

theorem Inv.begin (h : Inv acks t) {a : OutboundDeliveryAttempt} {token : String}
    (hd : d ∈ t.deliveries) (hid : d'.id = d.id) (hcount : d'.attemptCount = d.attemptCount + 1)
    (hrecovery : d'.recoveryIntegrityCode = d.recoveryIntegrityCode)
    (hstorage : d'.storageIntegrityCode = d.storageIntegrityCode)
    (hstatus : d.status = .sending) (hphase : d.dispatchPhase = some .preflight)
    (htoken : d.leaseToken = some token) (hstatus' : d'.status = .sending)
    (hphase' : d'.dispatchPhase = some .provider) (hactive' : d'.activeAttemptId = some a.id)
    (htoken' : d'.leaseToken = some token) (hexpires' : d'.leaseExpiresAt.isSome)
    (hnew : ∀ r ∈ t.attempts, r.id ≠ a.id) (hdelivery : a.deliveryId = d.id)
    (hnumber : a.attemptNumber = JsNumber.ofInt (d.attemptCount + 1))
    (hsending : a.status = .sending) (hattemptToken : a.leaseToken = token)
    (htrusted : a.storageIntegrityCode = none) :
    Inv acks ((t.updateDelivery d').insertAttempt a) := by
  have hcoherent := h.coherent d hd
  have hbudget := h.budget d hd
  obtain ⟨token₀, htoken₀, hpre⟩ := hcoherent.preflightLease hstatus hphase
  obtain rfl : token₀ = token := Option.some.inj (htoken₀.symm.trans htoken)
  have hown :
      ((t.updateDelivery d').insertAttempt a).attemptsOf d.id = t.attemptsOf d.id ++ [a] := by
    rw [← hdelivery]
    exact attemptsOf_insertAttempt_self a (t.updateDelivery d')
  refine h.updateDelivery (d := d) hid rfl ?_ ?_ ?_ (fun _ => le_rfl) ?_ ?_ ?_
  · rw [insertAttempt_attempts, List.map_append]
    refine List.Nodup.append h.attemptIds (List.nodup_singleton _) ?_
    intro id hmem hmem'
    obtain ⟨r, hr, rfl⟩ := List.mem_map.mp hmem
    exact hnew r hr (List.mem_singleton.mp hmem')
  · intro b hb
    rcases List.mem_append.mp hb with hmem | hmem
    · exact h.owned b hmem
    · obtain rfl := List.mem_singleton.mp hmem
      exact ⟨d, hd, hdelivery.symm⟩
  · intro id hne
    exact attemptsOf_insertAttempt_of_ne (hdelivery ▸ hne.symm) (t.updateDelivery d')
  · intro token' hnewToken r hr hrt
    obtain rfl : token₀ = token' := Option.some.inj (htoken'.symm.trans hnewToken)
    exact h.leases r hr d hd token₀ hrt htoken
  · rw [hown]
    exact {
      numbers := by
        rw [List.map_append, hcoherent.numbers, hcount, List.range'_concat, List.map_append,
          List.map_singleton, List.map_singleton, hnumber]
        congr 3
        push_cast
        omega
      trusted := by rw [hrecovery, hstorage]; exact hcoherent.trusted
      trustedAttempts := by
        intro b hb
        rcases List.mem_append.mp hb with hmem | hmem
        · exact hcoherent.trustedAttempts b hmem
        · obtain rfl := List.mem_singleton.mp hmem
          exact htrusted
      idle := fun hne => absurd hstatus' hne
      leased := fun _ => ⟨token₀, htoken', hexpires', .inr ⟨a, {
        dispatchPhase := hphase'
        activeAttemptId := hactive'
        mem := List.mem_append_right _ (List.mem_singleton_self a)
        status := hsending
        leaseToken := hattemptToken
        others := by
          intro b hb hne
          rcases List.mem_append.mp hb with hmem | hmem
          · exact hpre.attempts b hmem
          · exact absurd (congrArg _ (List.mem_singleton.mp hmem)) hne }⟩⟩
      due := fun hretrying => by rw [hstatus'] at hretrying; cases hretrying
      origin := fun _ => .inr (.inl hstatus') }
  · rw [hown]
    have hle := hbudget.of_not_atProvider (atProvider_of_waiting (.inr (.inr ⟨hstatus, hphase⟩)))
    have hnone := hbudget.no_accepted (by rw [hstatus]; exact ⟨nofun, nofun⟩)
    have hat : atProvider d' = true := by simp [atProvider, hstatus', hphase']
    have hamb : isAmbiguous a = true := by simp [isAmbiguous, hsending]
    have hacc : isAccepted a = false := by simp [isAccepted, hsending]
    refine ⟨?_, ?_, ?_⟩
    · rw [List.countP_append, List.countP_singleton, hat, hamb]
      simp only [if_true]
      omega
    · rw [List.countP_append, List.countP_singleton, hacc, hnone]
      simp
    · rw [List.countP_append, List.countP_singleton, hacc, hnone]
      simp

/-- A settled delivery holds no lease. -/
theorem Settlement.unleased (h : Settlement status d') : Unleased d' := by
  cases h with
  | accepted _ hunleased _ => exact hunleased
  | unknown _ hparked => exact hparked.unleased
  | rejectedRetryable hparked => exact hparked.unleased
  | rejectedPermanent hparked => exact hparked.unleased

/-- A settled attempt is no longer in flight. -/
theorem Settlement.status_ne (h : Settlement status d') : status ≠ .sending := by
  cases h <;> exact nofun

/-- A settled delivery has left the provider. -/
theorem Settlement.not_sending (h : Settlement status d') : d'.status ≠ .sending := by
  cases h with
  | accepted hsent _ _ => rw [hsent]; exact nofun
  | unknown hunknown _ => rw [hunknown]; exact nofun
  | rejectedRetryable hparked => exact hparked.not_sending
  | rejectedPermanent hparked => exact hparked.not_sending

/-- A settled delivery is sent for good or parked. -/
theorem Settlement.sent_or_parked (h : Settlement status d') :
    (status = .accepted ∧ d'.status = .sent ∧ d'.retryOriginStatus = none) ∨
      (status ≠ .accepted ∧ Parked d') := by
  cases h with
  | accepted hsent _ horigin => exact .inl ⟨rfl, hsent, horigin⟩
  | unknown _ hparked => exact .inr ⟨nofun, hparked⟩
  | rejectedRetryable hparked => exact .inr ⟨nofun, hparked⟩
  | rejectedPermanent hparked => exact .inr ⟨nofun, hparked⟩

/-- When the attempt may have been accepted, the delivery says so. -/
theorem Settlement.atProvider (h : Settlement status d')
    (hs : status = .accepted ∨ status = .unknown) : atProvider d' = true := by
  cases h with
  | accepted hsent _ _ => simp [MailPortal.Outbox.atProvider, hsent]
  | unknown hunknown _ => simp [MailPortal.Outbox.atProvider, hunknown]
  | rejectedRetryable _ => rcases hs with hs | hs <;> cases hs
  | rejectedPermanent _ => rcases hs with hs | hs <;> cases hs

section Settle

variable {atts : List OutboundDeliveryAttempt} {a a' : OutboundDeliveryAttempt}

/-- Replacing an attempt under its own number keeps the numbers. -/
theorem map_attemptNumber_update (hnd : (atts.map (·.id)).Nodup) (ha : a ∈ atts)
    (hid : a'.id = a.id) (hnumber : a'.attemptNumber = a.attemptNumber) :
    (update (·.id) a' atts).map (·.attemptNumber) = atts.map (·.attemptNumber) := by
  rw [update, List.map_map]
  refine List.map_congr_left fun r hr => ?_
  by_cases hk : r.id = a'.id
  · obtain rfl : r = a := eq_of_key_eq hnd hr ha (hk.trans hid)
    simp [hid, hnumber]
  · simp [hk]

/-- Settling replaces the attempt in flight and leaves the others: the delivery is coherent
again, with nothing in flight. -/
theorem Coherent.of_settled (h : Coherent d atts) (hnd : (atts.map (·.id)).Nodup)
    (ha : a ∈ atts) (hsucceeds : Succeeds d d') (hstatus : d.status = .sending)
    (hphase : d.dispatchPhase = some .provider) (hactive : d.activeAttemptId = some a.id)
    (hid : a'.id = a.id) (hnumber : a'.attemptNumber = a.attemptNumber)
    (htrusted : a'.storageIntegrityCode = a.storageIntegrityCode)
    (hsettled : Settlement a'.status d') :
    Coherent d' (update (·.id) a' atts) := by
  obtain ⟨token, active, -, hlease⟩ := h.providerLease hstatus hphase
  have hactiveId : active.id = a.id :=
    Option.some.inj (hlease.activeAttemptId.symm.trans hactive)
  have hnone : ∀ r ∈ update (·.id) a' atts, r.status ≠ .sending := by
    intro r hr
    rcases mem_update hr with rfl | ⟨hmem, hne⟩
    · exact hsettled.status_ne
    · exact (hlease.others r hmem fun he => hne (he.trans (hactiveId.trans hid.symm))).1
  have hnot := hsettled.not_sending
  exact {
    numbers := by
      rw [map_attemptNumber_update hnd ha hid hnumber, hsucceeds.attemptCount]
      exact h.numbers
    trusted := by
      rw [hsucceeds.recoveryIntegrityCode, hsucceeds.storageIntegrityCode]
      exact h.trusted
    trustedAttempts := by
      intro r hr
      rcases mem_update hr with rfl | ⟨hmem, -⟩
      · rw [htrusted]; exact h.trustedAttempts a ha
      · exact h.trustedAttempts r hmem
    idle := fun _ => ⟨hsettled.unleased, hnone⟩
    leased := fun hsending => absurd hsending hnot
    due := by
      intro hretrying
      rcases hsettled.sent_or_parked with ⟨-, hsent, -⟩ | ⟨-, hparked⟩
      · rw [hsent] at hretrying; cases hretrying
      · rcases hparked.status with ⟨-, hdue⟩ | hs | hs | hs
        · exact hdue
        all_goals rw [hs] at hretrying; cases hretrying
    origin := by
      intro horigin
      rcases hsettled.sent_or_parked with ⟨-, -, hnone⟩ | ⟨-, hparked⟩
      · rw [hnone] at horigin; cases horigin
      · exact .inr (.inr (hparked.origin horigin)) }

/-- The attempt in flight is already counted as one that may have been accepted, so
settling it never raises that count. -/
theorem Budget.of_settled {n : ℕ} (h : Budget n d atts) (hnd : (atts.map (·.id)).Nodup)
    (ha : a ∈ atts) (hstatus : d.status = .sending) (hsending : a.status = .sending)
    (hid : a'.id = a.id) (hsettled : Settlement a'.status d') :
    Budget n d' (update (·.id) a' atts) := by
  have hnone := h.no_accepted (by rw [hstatus]; exact ⟨nofun, nofun⟩)
  have hamb := countP_update (q := isAmbiguous) hnd ha hid.symm
  have hacc := countP_update (q := isAccepted) hnd ha hid.symm
  have hle := h.ambiguous
  have hbound : (if atProvider d then 1 else 0) ≤ 1 := by split <;> omega
  have hambA : isAmbiguous a = true := by simp [isAmbiguous, hsending]
  have haccA : isAccepted a = false := by simp [isAccepted, hsending]
  rw [hambA, if_pos rfl] at hamb
  rw [haccA, hnone] at hacc
  refine ⟨?_, ?_, ?_⟩
  · cases hs : isAmbiguous a' with
    | false =>
        rw [hs] at hamb
        simp only [Bool.false_eq_true, if_false] at hamb
        omega
    | true =>
        have hambiguous : a'.status = .accepted ∨ a'.status = .unknown := by
          simpa [isAmbiguous, hsettled.status_ne] using hs
        have hat := hsettled.atProvider hambiguous
        rw [hs, if_pos rfl] at hamb
        rw [hat, if_pos rfl]
        omega
  · have : (if isAccepted a' then 1 else 0) ≤ 1 := by split <;> omega
    simp only [Bool.false_eq_true, if_false] at hacc
    omega
  · intro hpos
    rcases hsettled.sent_or_parked with ⟨-, hsent, -⟩ | ⟨hne, -⟩
    · exact .inl hsent
    · have hzero : isAccepted a' = false := by simp [isAccepted, hne]
      rw [hzero] at hacc
      simp only [Bool.false_eq_true, if_false] at hacc
      omega

theorem Inv.settle (h : Inv acks t) (hd : d ∈ t.deliveries) (hsucceeds : Succeeds d d')
    (hstatus : d.status = .sending) (hphase : d.dispatchPhase = some .provider)
    (hactive : d.activeAttemptId = some a.id) (ha : a ∈ t.attempts)
    (hdelivery : a.deliveryId = d.id) (hid : a'.id = a.id)
    (hdelivery' : a'.deliveryId = a.deliveryId) (hnumber : a'.attemptNumber = a.attemptNumber)
    (htrusted : a'.storageIntegrityCode = a.storageIntegrityCode)
    (hsettled : Settlement a'.status d') :
    Inv acks ((t.updateDelivery d').updateAttempt a') := by
  have hcoherent := h.coherent d hd
  have hown := attemptsOf_updateAttempt h.attemptIds ha hid hdelivery'
  have hmem : a ∈ t.attemptsOf d.id := mem_attemptsOf.mpr ⟨ha, hdelivery⟩
  have hnd : ((t.attemptsOf d.id).map (·.id)).Nodup :=
    h.attemptIds.sublist (List.filter_sublist.map _)
  obtain ⟨token, active, -, hlease⟩ := hcoherent.providerLease hstatus hphase
  have hactiveId : active.id = a.id :=
    Option.some.inj (hlease.activeAttemptId.symm.trans hactive)
  obtain rfl : active = a := eq_of_key_eq hnd hlease.mem hmem hactiveId
  refine h.updateDelivery (d := d) hsucceeds.id rfl ?_ ?_ ?_ (fun _ => le_rfl) ?_ ?_ ?_
  · rw [updateAttempt_attempts, map_key_update]
    exact h.attemptIds
  · intro b hb
    rcases mem_update hb with rfl | ⟨hmem', -⟩
    · exact ⟨d, hd, (hdelivery'.trans hdelivery).symm⟩
    · exact h.owned b hmem'
  · intro id hne
    refine (hown id).trans (update_eq_self fun r hr hk => ?_)
    obtain ⟨hr', hrd⟩ := mem_attemptsOf.mp hr
    obtain rfl : r = active := eq_of_key_eq h.attemptIds hr' ha (hk.trans hid)
    exact hne (hrd.symm.trans hdelivery)
  · exact fun _ htoken => absurd htoken hsettled.unleased.token_ne
  · exact (hown d.id).symm ▸ hcoherent.of_settled hnd hmem hsucceeds hstatus hphase hactive hid
      hnumber htrusted hsettled
  · exact (hown d.id).symm ▸ (h.budget d hd).of_settled hnd hmem hstatus hlease.status hid
      hsettled

end Settle

/-- **Every write keeps the invariant.** -/
theorem Inv.step (h : Inv acks t) (hstep : LifecycleStep t label t') :
    Inv (acks ++ acknowledged [label]) t' := by
  cases hstep with
  | enqueue hnew hstatus hcount hunleased horigin hrecovery hstorage =>
      simpa [acknowledged] using
        h.enqueue hnew hstatus hcount hunleased horigin hrecovery hstorage
  | claim hd hsucceeds hwaiting hstatus hphase hactive htoken hexpires hattempt hlease =>
      simpa [acknowledged] using h.claim hd hsucceeds hwaiting hstatus hphase hactive htoken
        hexpires hattempt hlease
  | park hd hsucceeds hfrom hparked =>
      simpa [acknowledged] using h.park hd hsucceeds hfrom hparked
  | begin hd hid hcount hrecovery hstorage hstatus hphase htoken hstatus' hphase' hactive'
      htoken' hexpires' hnew hdelivery hnumber hsending hattempt htrusted =>
      simpa [acknowledged] using h.begin hd hid hcount hrecovery hstorage hstatus hphase htoken
        hstatus' hphase' hactive' htoken' hexpires' hnew hdelivery hnumber hsending hattempt
        htrusted
  | settle hd hsucceeds hstatus hphase hactive ha hdelivery hid hdelivery' hnumber _ htrusted
      hsettled =>
      simpa [acknowledged] using h.settle hd hsucceeds hstatus hphase hactive ha hdelivery hid
        hdelivery' hnumber htrusted hsettled
  | reopen hd hsucceeds hstatus hstatus' hunleased =>
      simpa [acknowledged] using h.requeue hd hsucceeds (.inl hstatus) hstatus' hunleased
        (fun _ => le_rfl) (fun hs => by rw [hstatus] at hs; cases hs)
  | acknowledge hd hsucceeds hstatus hstatus' hunleased =>
      refine h.requeue hd hsucceeds (.inr hstatus) hstatus' hunleased ?_ fun _ => ?_
      · intro id
        rw [List.count_append]
        exact Nat.le_add_right _ _
      · simp [acknowledged, List.count_append]
  | bounce hd hsucceeds hstatus hstatus' hunleased horigin =>
      simpa [acknowledged] using h.bounce hd hsucceeds hstatus hstatus' hunleased horigin

/-- A path acknowledges what its steps acknowledge. -/
theorem acknowledged_append (ls ms : List LifecycleLabel) :
    acknowledged (ls ++ ms) = acknowledged ls ++ acknowledged ms :=
  List.filterMap_append

/-- **The invariant holds along every path.** -/
theorem Inv.path (h : Inv acks t) (hpath : LifecyclePath t labels t') :
    Inv (acks ++ acknowledged labels) t' := by
  induction hpath generalizing acks with
  | nil => simpa [acknowledged] using h
  | @cons t u v label labels hstep _ ih =>
      have hnext := ih (h.step hstep)
      rwa [List.append_assoc, ← acknowledged_append] at hnext

/-- Paths compose. -/
theorem LifecyclePath.append {ls ms : List LifecycleLabel} {u v : OutboxTables}
    (h : LifecyclePath t ls u) (h' : LifecyclePath u ms v) : LifecyclePath t (ls ++ ms) v := by
  induction h with
  | nil => exact h'
  | cons hstep _ ih => exact .cons hstep (ih h')

/-- A single write is a path. -/
theorem LifecycleStep.path {u : OutboxTables} (h : LifecycleStep t label u) :
    LifecyclePath t [label] u :=
  .cons h .nil

end Steps

/-! ### Lease tokens -/

/-- The delivery `id` holds the lease token `token`. -/
def Holds (t : OutboxTables) (id token : String) : Prop :=
  ∃ d ∈ t.deliveries, d.id = id ∧ d.leaseToken = some token

/-- The token is on record somewhere: in a lease, or in an attempt made under it. -/
def Recorded (t : OutboxTables) (token : String) : Prop :=
  (∃ id, Holds t id token) ∨ ∃ a ∈ t.attempts, a.leaseToken = token

section Tokens

variable {t u : OutboxTables} {d' : StoredOutboundDelivery} {id token : String}

/-- Who holds a token after one delivery was replaced. -/
theorem Holds.of_updateDelivery (h : Holds (t.updateDelivery d') id token) :
    (d'.id = id ∧ d'.leaseToken = some token) ∨ Holds t id token := by
  obtain ⟨r, hr, hid, htoken⟩ := h
  rcases mem_update hr with rfl | ⟨hmem, -⟩
  · exact .inl ⟨hid, htoken⟩
  · exact .inr ⟨r, hmem, hid, htoken⟩

/-- A write issues the token of its label and no other. -/
theorem LifecycleStep.holds (hstep : LifecycleStep t label u) (h : Holds u id token) :
    Holds t id token ∨ token ∈ claimedTokens [label] := by
  cases hstep with
  | enqueue _ _ _ hunleased _ _ _ =>
      obtain ⟨r, hr, hid, htoken⟩ := h
      rcases List.mem_append.mp hr with hmem | hmem
      · exact .inl ⟨r, hmem, hid, htoken⟩
      · obtain rfl := List.mem_singleton.mp hmem
        exact absurd htoken hunleased.token_ne
  | claim _ _ _ _ _ _ htoken _ _ _ =>
      rcases h.of_updateDelivery with ⟨-, hheld⟩ | hheld
      · obtain rfl := Option.some.inj (hheld.symm.trans htoken)
        exact .inr (List.mem_singleton_self _)
      · exact .inl hheld
  | park _ _ _ hparked =>
      exact .inl (h.of_updateDelivery.resolve_left fun hd => hparked.unleased.token_ne hd.2)
  | @begin d _ _ _ hd hid _ _ _ _ _ htoken _ _ _ htoken' _ _ _ _ _ _ _ =>
      rcases Holds.of_updateDelivery h with ⟨hid', hheld⟩ | hheld
      · exact .inl ⟨d, hd, hid.symm.trans hid', htoken.trans (htoken'.symm.trans hheld)⟩
      · exact .inl hheld
  | settle _ _ _ _ _ _ _ _ _ _ _ _ hsettled =>
      exact .inl ((Holds.of_updateDelivery h).resolve_left fun hd =>
        hsettled.unleased.token_ne hd.2)
  | reopen _ _ _ _ hunleased =>
      exact .inl (h.of_updateDelivery.resolve_left fun hd => hunleased.token_ne hd.2)
  | acknowledge _ _ _ _ hunleased =>
      exact .inl (h.of_updateDelivery.resolve_left fun hd => hunleased.token_ne hd.2)
  | bounce _ _ _ _ hunleased _ =>
      exact .inl (h.of_updateDelivery.resolve_left fun hd => hunleased.token_ne hd.2)

/-- The attempts of a write carry tokens that were on record. -/
theorem LifecycleStep.attemptToken (hstep : LifecycleStep t label u) {a : OutboundDeliveryAttempt}
    (ha : a ∈ u.attempts) : Recorded t a.leaseToken := by
  cases hstep with
  | @begin d _ _ _ hd _ _ _ _ _ _ htoken _ _ _ _ _ _ _ _ _ hattempt _ =>
      rcases List.mem_append.mp ha with hmem | hmem
      · exact .inr ⟨a, hmem, rfl⟩
      · obtain rfl := List.mem_singleton.mp hmem
        exact .inl ⟨d.id, d, hd, rfl, hattempt ▸ htoken⟩
  | settle _ _ _ _ _ hold _ _ _ _ htoken _ _ =>
      rcases mem_update ha with rfl | ⟨hmem, -⟩
      · exact .inr ⟨_, hold, htoken.symm⟩
      · exact .inr ⟨a, hmem, rfl⟩
  | _ => exact .inr ⟨a, ha, rfl⟩

/-- A write puts no token on record but the one it issues. -/
theorem LifecycleStep.recorded (hstep : LifecycleStep t label u) (h : Recorded u token) :
    Recorded t token ∨ token ∈ claimedTokens [label] := by
  rcases h with ⟨id, hheld⟩ | ⟨a, ha, rfl⟩
  · rcases hstep.holds hheld with hold | hnew
    · exact .inl (.inl ⟨id, hold⟩)
    · exact .inr hnew
  · exact .inl (hstep.attemptToken ha)

theorem claimedTokens_append (ls ms : List LifecycleLabel) :
    claimedTokens (ls ++ ms) = claimedTokens ls ++ claimedTokens ms :=
  List.filterMap_append

/-- **Leases are never handed over**: a token that a delivery holds after a sequence of
writes was held by that delivery before, or is new. -/
theorem LifecyclePath.held (hpath : LifecyclePath t labels u) (h : Holds u id token) :
    Holds t id token ∨ token ∈ claimedTokens labels := by
  induction hpath with
  | nil => exact .inl h
  | @cons t v u label labels hstep _ ih =>
      rw [← List.singleton_append, claimedTokens_append, List.mem_append]
      rcases ih h with hold | hnew
      · rcases hstep.holds hold with hheld | hlabel
        · exact .inl hheld
        · exact .inr (.inl hlabel)
      · exact .inr (.inr hnew)

/-- A sequence of writes puts no token on record but those it issues. -/
theorem LifecyclePath.recorded (hpath : LifecyclePath t labels u) (h : Recorded u token) :
    Recorded t token ∨ token ∈ claimedTokens labels := by
  induction hpath with
  | nil => exact .inl h
  | @cons t v u label labels hstep _ ih =>
      rw [← List.singleton_append, claimedTokens_append, List.mem_append]
      rcases ih h with hold | hnew
      · rcases hstep.recorded hold with hrec | hlabel
        · exact .inl hrec
        · exact .inr (.inl hlabel)
      · exact .inr (.inr hnew)

end Tokens

end MailPortal.Outbox
