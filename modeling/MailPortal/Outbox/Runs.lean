import MailPortal.Lib.Runs
import MailPortal.Outbox.Refinement

/-!
# Runs of the Outbox

A caller of the outbox makes calls in any order, with any arguments: stale lease tokens,
re-used ones, any clock. `Call` is one call, `World.call` performs it (a call that throws
leaves the store as it was) and writes it to the history, and a run is a list of calls.

The only thing asked of a run is that the identities `createId` returns are new, which is
`World.run_inv`'s freshness hypothesis.

Main results, over every faithful store that starts empty:

* `no_silent_duplicate`: the attempts of a delivery that may have been accepted are at most
  one more than its successful `retryUnknown` calls, and at most one is known accepted;
* `lease_coherence`: the lease fields of every delivery agree with its status and its
  attempts, and a lease token that was given up is refused for ever after.
-/

namespace MailPortal.Outbox

open Failure TruthfulOutboxService

variable {σ : Type}

/-! ### Calls -/

/-- One call of the service, with its arguments and what `createId` returns during it. -/
inductive Call
  | enqueue (createId : IdPrefix → String) (command : EnqueueOutboundCommand)
      (onCommitted : EnqueuedDelivery → Except OutboxError Unit)
  | cancel (deliveryId : String) (actor : OutboundDeliveryActor) (atTime : String)
      (onCommitted : StoredOutboundDelivery → CancelOutcome → Except OutboxError Unit)
  | claimNextForPreflight (createId : IdPrefix → String) (now : String)
      (leaseDurationMs : JsNumber)
  | deferPreflight (deliveryId leaseToken : String) (details : RetryableFailureDetails)
  | failPreflight (deliveryId leaseToken : String) (details : DefinitiveFailureDetails)
  | beginProviderAttempt (deliveryId leaseToken attemptId atTime : String)
      (providerLeaseDurationMs : JsNumber)
  | finalizeRetryableFailure (deliveryId leaseToken : String) (details : RetryableFailureDetails)
  | finalizeDefinitiveFailure (deliveryId leaseToken : String)
      (details : DefinitiveFailureDetails)
  | finalizeUnknown (deliveryId leaseToken : String) (details : DefinitiveFailureDetails)
  | finalizeAccepted (deliveryId leaseToken sesMessageId atTime : String)
  | retryFailed (deliveryId : String) (actor : OutboundDeliveryActor) (atTime : String)
      (assertRetryAllowed : StoredOutboundDelivery → Except OutboxError Unit)
  | retryUnknown (deliveryId : String) (actor : OutboundDeliveryActor)
      (acknowledgeDuplicateRisk : Bool) (atTime : String)
      (assertRetryAllowed : StoredOutboundDelivery → Except OutboxError Unit)
  | markBounced (deliveryId : String) (details : BounceDetails)
  | recoverExpiredLeases (now : String)

/-- What a call returns. -/
inductive CallResult
  | enqueued (result : EnqueuedDelivery)
  | cancelled (result : DeliveryMutationResult)
  | claimed (result : Option ClaimedPreflight)
  | preflight (result : PreflightMutationResult)
  | begun (result : ClaimedDelivery)
  | finalized (result : FinalizedDeliveryAttempt)
  | requeued (result : DeliveryMutationResult)
  | bounced (result : StoredOutboundDelivery)
  | recovered (result : List RecoveredDeliveryLease)

/-- Wrap the result of a method, leaving its state. -/
def wrap {α : Type} (result : α → CallResult) (x : Except OutboxError (α × σ)) :
    Except OutboxError (CallResult × σ) := do
  let (a, s) ← x
  pure (result a, s)

/-- Perform a call in one transaction. -/
def Call.perform (service : TruthfulOutboxService) (tx : OutboundDeliveryTransaction σ) (s : σ) :
    Call → Except OutboxError (CallResult × σ)
  | .enqueue createId command onCommitted =>
      wrap .enqueued (TruthfulOutboxService.enqueue service tx createId command onCommitted s)
  | .cancel id actor atTime onCommitted =>
      wrap .cancelled (TruthfulOutboxService.cancel tx id actor atTime onCommitted s)
  | .claimNextForPreflight createId now duration =>
      wrap .claimed
        (TruthfulOutboxService.claimNextForPreflight service tx createId now duration s)
  | .deferPreflight id token details =>
      wrap .preflight (TruthfulOutboxService.deferPreflight tx id token details s)
  | .failPreflight id token details =>
      wrap .preflight (TruthfulOutboxService.failPreflight tx id token details s)
  | .beginProviderAttempt id token attemptId atTime duration =>
      wrap .begun
        (TruthfulOutboxService.beginProviderAttempt service tx id token attemptId atTime duration s)
  | .finalizeRetryableFailure id token details =>
      wrap .finalized (TruthfulOutboxService.finalizeRetryableFailure tx id token details s)
  | .finalizeDefinitiveFailure id token details =>
      wrap .finalized (TruthfulOutboxService.finalizeDefinitiveFailure tx id token details s)
  | .finalizeUnknown id token details =>
      wrap .finalized (TruthfulOutboxService.finalizeUnknown tx id token details s)
  | .finalizeAccepted id token messageId atTime =>
      wrap .finalized (TruthfulOutboxService.finalizeAccepted tx id token messageId atTime s)
  | .retryFailed id actor atTime check =>
      wrap .requeued (TruthfulOutboxService.retryFailed tx id actor atTime check s)
  | .retryUnknown id actor acknowledge atTime check =>
      wrap .requeued
        (TruthfulOutboxService.retryUnknown tx id actor acknowledge atTime check s)
  | .markBounced id details =>
      wrap .bounced (TruthfulOutboxService.markBounced tx id details s)
  | .recoverExpiredLeases now =>
      wrap .recovered (TruthfulOutboxService.recoverExpiredLeases tx now s)

/-- The identities `createId` returns during a call. -/
def Call.createdIds : Call → List (IdPrefix × String)
  | .enqueue createId _ _ => [(.delivery, createId .delivery), (.email, createId .email)]
  | .claimNextForPreflight createId _ _ => [(.lease, createId .lease)]
  | _ => []

/-- The delivery whose duplicate risk a call acknowledges, if it succeeds. -/
def Call.acknowledges : Call → List String
  | .retryUnknown id _ _ _ _ => [id]
  | _ => []

/-- The delivery and the lease token a call presents. -/
def Call.presents : Call → Option (String × String)
  | .deferPreflight id token _ => some (id, token)
  | .failPreflight id token _ => some (id, token)
  | .beginProviderAttempt id token _ _ _ => some (id, token)
  | .finalizeRetryableFailure id token _ => some (id, token)
  | .finalizeDefinitiveFailure id token _ => some (id, token)
  | .finalizeUnknown id token _ => some (id, token)
  | .finalizeAccepted id token _ _ => some (id, token)
  | _ => none

/-- The deliveries that a deferral, a failure, a finalization, a cancellation or a recovery
reports. -/
def CallResult.settled : CallResult → List String
  | .cancelled result => [result.delivery.id]
  | .preflight result => [result.delivery.id]
  | .finalized result => [result.delivery.id]
  | .recovered result => result.map (·.delivery.id)
  | _ => []

/-! ### Runs -/

/-- The store with the calls made so far and what they returned or threw. -/
structure World (σ : Type) where
  store : σ
  history : List (Call × Except OutboxError CallResult)

namespace World

/-- Before the first call. -/
def start (s : σ) : World σ := ⟨s, []⟩

/-- Make a call. -/
def call (service : TruthfulOutboxService) (tx : OutboundDeliveryTransaction σ) (w : World σ)
    (c : Call) : World σ :=
  match c.perform service tx w.store with
  | .ok (result, s) => ⟨s, w.history ++ [(c, .ok result)]⟩
  | .error e => ⟨w.store, w.history ++ [(c, .error e)]⟩

/-- Make a list of calls on a store. -/
def run (service : TruthfulOutboxService) (tx : OutboundDeliveryTransaction σ) (s : σ)
    (calls : List Call) : World σ :=
  Runs.run (call service tx) (start s) calls

/-- The identities drawn so far. -/
def drawn (w : World σ) : List (IdPrefix × String) := w.history.flatMap fun e => e.1.createdIds

end World

/-- The deliveries of the successful `retryUnknown` calls, one entry a call. -/
def successfulRetryUnknowns (history : List (Call × Except OutboxError CallResult)) :
    List String :=
  history.flatMap fun e =>
    match e.2 with
    | .ok _ => e.1.acknowledges
    | .error _ => []

theorem wrap_eq_ok {α : Type} {result : α → CallResult} {x : Except OutboxError (α × σ)}
    {r : CallResult} {s : σ} :
    wrap result x = .ok (r, s) ↔ ∃ a, x = .ok (a, s) ∧ result a = r := by
  simp only [wrap, bind_eq_ok, pure_eq_ok, Prod.mk.injEq]
  constructor
  · rintro ⟨⟨a, s'⟩, hx, rfl, rfl⟩
    exact ⟨a, hx, rfl⟩
  · rintro ⟨a, hx, rfl⟩
    exact ⟨(a, s), hx, rfl, rfl⟩

variable {w : World σ}

section Calls

variable {service : TruthfulOutboxService} {tx : OutboundDeliveryTransaction σ}
  {view : σ → OutboxTables} {s s' : σ} {acks : List String} {c : Call} {result : CallResult}

/-- A performed call changes the store and is written to the history. -/
theorem World.call_ok (hok : c.perform service tx w.store = .ok (result, s')) :
    w.call service tx c = ⟨s', w.history ++ [(c, .ok result)]⟩ := by
  rw [World.call, hok]

/-- A call that throws only changes the history. -/
theorem World.call_error {e : OutboxError} (herror : c.perform service tx w.store = .error e) :
    w.call service tx c = ⟨w.store, w.history ++ [(c, .error e)]⟩ := by
  rw [World.call, herror]

/-- **Every call refines the lifecycle.** -/
theorem Call.perform_writes (h : Faithful tx view) (hinv : Inv acks (view s))
    (hnew : ∀ token, (IdPrefix.lease, token) ∈ c.createdIds → ¬ Recorded (view s) token)
    (hok : c.perform service tx s = .ok (result, s')) :
    ∃ tokens : List String, Writes (view s) c.acknowledges tokens (view s') ∧
      ∀ token ∈ tokens, (IdPrefix.lease, token) ∈ c.createdIds := by
  cases c with
  | enqueue createId command onCommitted =>
      obtain ⟨_, hok, -⟩ := wrap_eq_ok.mp hok
      exact ⟨[], enqueue_writes h hok, nofun⟩
  | cancel id actor atTime onCommitted =>
      obtain ⟨_, hok, -⟩ := wrap_eq_ok.mp hok
      exact ⟨[], (cancel_releases h hinv hok).writes, nofun⟩
  | claimNextForPreflight createId now duration =>
      obtain ⟨_, hok, -⟩ := wrap_eq_ok.mp hok
      have hmem : (IdPrefix.lease, createId .lease) ∈
          (Call.claimNextForPreflight createId now duration).createdIds :=
        List.mem_singleton_self _
      refine ⟨[createId .lease], claimLoop_writes h hinv (hnew _ hmem) hok, ?_⟩
      intro token htoken
      rw [List.mem_singleton.mp htoken]
      exact hmem
  | deferPreflight id token details =>
      obtain ⟨_, hok, -⟩ := wrap_eq_ok.mp hok
      exact ⟨[], (deferPreflight_releases h hok).writes, nofun⟩
  | failPreflight id token details =>
      obtain ⟨_, hok, -⟩ := wrap_eq_ok.mp hok
      exact ⟨[], (failPreflight_releases h hok).writes, nofun⟩
  | beginProviderAttempt id token attemptId atTime duration =>
      obtain ⟨_, hok, -⟩ := wrap_eq_ok.mp hok
      exact ⟨[], beginProviderAttempt_writes h hok, nofun⟩
  | finalizeRetryableFailure id token details =>
      obtain ⟨_, hok, -⟩ := wrap_eq_ok.mp hok
      exact ⟨[], (finalizeRetryableFailure_releases h hok).writes, nofun⟩
  | finalizeDefinitiveFailure id token details =>
      obtain ⟨_, hok, -⟩ := wrap_eq_ok.mp hok
      exact ⟨[], (finalizeDefinitiveFailure_releases h hok).writes, nofun⟩
  | finalizeUnknown id token details =>
      obtain ⟨_, hok, -⟩ := wrap_eq_ok.mp hok
      exact ⟨[], (finalizeUnknown_releases h hok).writes, nofun⟩
  | finalizeAccepted id token messageId atTime =>
      obtain ⟨_, hok, -⟩ := wrap_eq_ok.mp hok
      exact ⟨[], (finalizeAccepted_releases h hok).writes, nofun⟩
  | retryFailed id actor atTime check =>
      obtain ⟨_, hok, -⟩ := wrap_eq_ok.mp hok
      exact ⟨[], retryFailed_writes h hinv hok, nofun⟩
  | retryUnknown id actor acknowledge atTime check =>
      obtain ⟨_, hok, -⟩ := wrap_eq_ok.mp hok
      exact ⟨[], retryUnknown_writes h hinv hok, nofun⟩
  | markBounced id details =>
      obtain ⟨_, hok, -⟩ := wrap_eq_ok.mp hok
      exact ⟨[], markBounced_writes h hinv hok, nofun⟩
  | recoverExpiredLeases now =>
      obtain ⟨_, hok, -⟩ := wrap_eq_ok.mp hok
      exact ⟨[], (recoverExpiredLeases_releases h hinv hok).1, nofun⟩

/-- A deferral, a failure, a finalization, a cancellation and a recovery leave the
deliveries they report without a lease. -/
theorem Call.perform_settled (h : Faithful tx view) (hinv : Inv acks (view s))
    (hok : c.perform service tx s = .ok (result, s')) :
    ∀ id ∈ result.settled, Released (view s') id := by
  cases c with
  | cancel id actor atTime onCommitted =>
      obtain ⟨r, hdone, rfl⟩ := wrap_eq_ok.mp hok
      exact List.forall_mem_singleton.mpr (cancel_releases h hinv hdone).released
  | deferPreflight id token details =>
      obtain ⟨r, hdone, rfl⟩ := wrap_eq_ok.mp hok
      exact List.forall_mem_singleton.mpr (deferPreflight_releases h hdone).released
  | failPreflight id token details =>
      obtain ⟨r, hdone, rfl⟩ := wrap_eq_ok.mp hok
      exact List.forall_mem_singleton.mpr (failPreflight_releases h hdone).released
  | finalizeRetryableFailure id token details =>
      obtain ⟨r, hdone, rfl⟩ := wrap_eq_ok.mp hok
      exact List.forall_mem_singleton.mpr (finalizeRetryableFailure_releases h hdone).released
  | finalizeDefinitiveFailure id token details =>
      obtain ⟨r, hdone, rfl⟩ := wrap_eq_ok.mp hok
      exact List.forall_mem_singleton.mpr (finalizeDefinitiveFailure_releases h hdone).released
  | finalizeUnknown id token details =>
      obtain ⟨r, hdone, rfl⟩ := wrap_eq_ok.mp hok
      exact List.forall_mem_singleton.mpr (finalizeUnknown_releases h hdone).released
  | finalizeAccepted id token messageId atTime =>
      obtain ⟨r, hdone, rfl⟩ := wrap_eq_ok.mp hok
      exact List.forall_mem_singleton.mpr (finalizeAccepted_releases h hdone).released
  | recoverExpiredLeases now =>
      obtain ⟨r, hdone, rfl⟩ := wrap_eq_ok.mp hok
      intro id hid
      obtain ⟨recovered, hrecovered, rfl⟩ := List.mem_map.mp hid
      exact (recoverExpiredLeases_releases h hinv hdone).2 recovered hrecovered
  | _ =>
      obtain ⟨r, -, rfl⟩ := wrap_eq_ok.mp hok
      exact nofun

/-- **A call that presents a token nobody holds throws.** It is a lease error, except that
`finalizeAccepted` rejects a blank message id before it looks at the lease. -/
theorem Call.perform_stale (service : TruthfulOutboxService) (h : Faithful tx view)
    {deliveryId token : String}
    (hpresents : c.presents = some (deliveryId, token))
    (hstale : ∀ id, ¬ Holds (view s) id token) :
    c.perform service tx s = .error (.deliveryLease deliveryId) ∨
      ∃ messageId atTime, c = .finalizeAccepted deliveryId token messageId atTime ∧
        isBlank messageId = true ∧
        c.perform service tx s = .error (.plain "SES acceptance requires a MessageId") := by
  have hrequire : requireLease tx deliveryId token s = .error (.deliveryLease deliveryId) :=
    requireLease_stale h hstale
  have hpreflight :
      requirePreflightLease tx deliveryId token s = .error (.deliveryLease deliveryId) :=
    requirePreflightLease_stale h hstale
  cases c with
  | deferPreflight id token' details =>
      cases hpresents
      left
      simp only [Call.perform, wrap, TruthfulOutboxService.deferPreflight, hpreflight, error_bind]
  | failPreflight id token' details =>
      cases hpresents
      left
      simp only [Call.perform, wrap, TruthfulOutboxService.failPreflight, hpreflight, error_bind]
  | beginProviderAttempt id token' attemptId atTime duration =>
      cases hpresents
      left
      simp only [Call.perform, wrap, TruthfulOutboxService.beginProviderAttempt, hpreflight,
        error_bind]
  | finalizeRetryableFailure id token' details =>
      cases hpresents
      left
      simp only [Call.perform, wrap, TruthfulOutboxService.finalizeRetryableFailure, hrequire,
        error_bind]
  | finalizeDefinitiveFailure id token' details =>
      cases hpresents
      left
      simp only [Call.perform, wrap, TruthfulOutboxService.finalizeDefinitiveFailure, hrequire,
        error_bind]
  | finalizeUnknown id token' details =>
      cases hpresents
      left
      simp only [Call.perform, wrap, TruthfulOutboxService.finalizeUnknown, hrequire, error_bind]
  | finalizeAccepted id token' messageId atTime =>
      cases hpresents
      by_cases hblank : isBlank messageId = true
      · right
        refine ⟨messageId, atTime, rfl, hblank, ?_⟩
        simp [Call.perform, wrap, TruthfulOutboxService.finalizeAccepted, require, hblank,
          error_bind]
      · left
        simp [Call.perform, wrap, TruthfulOutboxService.finalizeAccepted, require, hblank, ok_bind,
          hrequire, error_bind]
  | _ => cases hpresents

end Calls

/-! ### The invariant of a run -/

section Runs

variable {service : TruthfulOutboxService} {tx : OutboundDeliveryTransaction σ}
  {view : σ → OutboxTables}

/-- What holds after every run: the invariant of the outbox, for the duplicate risks the
history acknowledges, and every lease token on record was drawn. -/
structure World.Inv (view : σ → OutboxTables) (w : World σ) : Prop where
  tables : Outbox.Inv (successfulRetryUnknowns w.history) (view w.store)
  tokens : ∀ token, Recorded (view w.store) token → (IdPrefix.lease, token) ∈ w.drawn

/-- A call draws its identities, whether it succeeds or not. -/
theorem World.drawn_call (w : World σ) (c : Call) :
    (w.call service tx c).drawn = w.drawn ++ c.createdIds := by
  cases hc : c.perform service tx w.store with
  | error e => simp [World.call_error hc, World.drawn]
  | ok r => simp [World.call_ok hc, World.drawn]

/-- One call with new identities keeps the invariant. -/
theorem World.Inv.call (h : Faithful tx view) {c : Call} (hw : w.Inv view)
    (hfresh : (w.drawn ++ c.createdIds).Nodup) : (w.call service tx c).Inv view := by
  have hdisjoint := List.disjoint_of_nodup_append hfresh
  cases hc : c.perform service tx w.store with
  | error e =>
      rw [World.call_error hc]
      refine ⟨?_, fun token htoken => ?_⟩
      · simpa [successfulRetryUnknowns] using hw.tables
      · have hold := hw.tokens token htoken
        simp only [World.drawn, List.flatMap_append] at hold ⊢
        exact List.mem_append_left _ hold
  | ok r =>
      obtain ⟨result, s'⟩ := r
      obtain ⟨tokens, hwrites, htokens⟩ := Call.perform_writes h hw.tables
        (fun token hmem hrec => hdisjoint (hw.tokens token hrec) hmem) hc
      rw [World.call_ok hc]
      refine ⟨?_, fun token htoken => ?_⟩
      · simpa [successfulRetryUnknowns] using hw.tables.writes hwrites
      · obtain ⟨labels, hpath, -, hlabels⟩ := hwrites
        simp only [World.drawn, List.flatMap_append, List.mem_append]
        rcases hpath.recorded htoken with hold | hnew
        · exact .inl (hw.tokens token hold)
        · exact .inr (by simpa using htokens token (hlabels hnew))

/-- **The invariant of a run**: over a faithful store that starts empty, when the identities
drawn along the run are new. -/
theorem World.run_inv (service : TruthfulOutboxService) (h : Faithful tx view) {s : σ}
    (hd : (view s).deliveries = [])
    (ha : (view s).attempts = []) {calls : List Call}
    (hfresh : (calls.flatMap Call.createdIds).Nodup) : (World.run service tx s calls).Inv view := by
  have hstart : (World.start s).Inv view := by
    refine ⟨Outbox.Inv.empty hd ha, ?_⟩
    rintro token (⟨id, d, hmem, -⟩ | ⟨a, hmem, -⟩)
    · change d ∈ (view s).deliveries at hmem
      rw [hd] at hmem
      cases hmem
    · change a ∈ (view s).attempts at hmem
      rw [ha] at hmem
      cases hmem
  exact Runs.run_invariant_of_fresh World.drawn_call
    (fun w c hw hnd => hw.call h hnd) hstart calls
    (by simpa [World.start, World.drawn] using hfresh)

/-- A run of a longer list goes on from the run of a shorter one. -/
theorem World.run_append (s : σ) (before after : List Call) :
    World.run service tx s (before ++ after) =
      Runs.run (World.call service tx) (World.run service tx s before) after :=
  Runs.run_append _ _ _ _

/-- The same, for one call more. -/
theorem World.run_concat (s : σ) (before : List Call) (c : Call) :
    World.run service tx s (before ++ [c]) = (World.run service tx s before).call service tx c :=
  World.run_append s before [c]

/-- A lease that is held after a call was held before it, unless the call drew its token. -/
theorem World.Inv.call_held (h : Faithful tx view) {c : Call} (hw : w.Inv view)
    (hfresh : (w.drawn ++ c.createdIds).Nodup) {id token : String}
    (hheld : Holds (view (w.call service tx c).store) id token) :
    Holds (view w.store) id token ∨ (IdPrefix.lease, token) ∈ c.createdIds := by
  have hdisjoint := List.disjoint_of_nodup_append hfresh
  cases hc : c.perform service tx w.store with
  | error e =>
      rw [World.call_error hc] at hheld
      exact .inl hheld
  | ok r =>
      obtain ⟨result, s'⟩ := r
      obtain ⟨tokens, ⟨labels, hpath, -, hlabels⟩, htokens⟩ := Call.perform_writes h hw.tables
        (fun token hmem hrec => hdisjoint (hw.tokens token hrec) hmem) hc
      rw [World.call_ok hc] at hheld
      rcases hpath.held hheld with hold | hnew
      · exact .inl hold
      · exact .inr (htokens token (hlabels hnew))

/-- A lease that is held after a run was held before it, unless the run drew its token. -/
theorem World.run_held (h : Faithful tx view) (hw : w.Inv view) {calls : List Call}
    (hfresh : (w.drawn ++ calls.flatMap Call.createdIds).Nodup) {id token : String}
    (hheld : Holds (view (Runs.run (World.call service tx) w calls).store) id token) :
    Holds (view w.store) id token ∨ (IdPrefix.lease, token) ∈ calls.flatMap Call.createdIds := by
  induction calls generalizing w with
  | nil => exact .inl hheld
  | cons c calls ih =>
      rw [List.flatMap_cons, ← List.append_assoc] at hfresh
      have hfirst := List.Nodup.of_append_left hfresh
      rw [List.flatMap_cons, List.mem_append]
      have hnext : (w.call service tx c).drawn = w.drawn ++ c.createdIds := w.drawn_call c
      rcases ih (hw.call h hfirst) (hnext ▸ hfresh) hheld with hold | hnew
      · rcases hw.call_held h hfirst hold with hheld' | hdrawn
        · exact .inl hheld'
        · exact .inr (.inl hdrawn)
      · exact .inr (.inr hnew)

/-- A run draws what its calls draw. -/
theorem World.drawn_runs (w : World σ) (calls : List Call) :
    (Runs.run (World.call service tx) w calls).drawn =
      w.drawn ++ calls.flatMap Call.createdIds := by
  induction calls generalizing w with
  | nil => simp
  | cons c calls ih =>
      rw [Runs.run_cons, ih, World.drawn_call, List.flatMap_cons, List.append_assoc]

/-- What a run has drawn in all. -/
theorem World.drawn_run (s : σ) (calls : List Call) :
    (World.run service tx s calls).drawn = calls.flatMap Call.createdIds :=
  World.drawn_runs (World.start s) calls

/-! ### A run to look at -/

/-- The service on a host that reads ISO dates. -/
def sampleService : TruthfulOutboxService where
  host := { dateParse := isoTimeValue, localeCompare := compare }

def sampleCommand : EnqueueOutboundCommand where
  idempotencyKey := "send-1"
  commandFingerprint := String.ofList (List.replicate 64 'a')
  source := .ui
  actor := { kind := .user }
  snapshot := {
    mailboxId := "team@example.com"
    kind := .compose
    «to» := ["reader@example.com"]
    cc := []
    bcc := []
    «from» := "team@example.com"
    subject := "Hello"
    threadId := "thread-1"
    attachmentIds := [] }
  requestedAt := "2026-07-11T10:00:00.000Z"
  undoUntil := "2026-07-11T10:00:10.000Z"

/-- A delivery is sent once, and its outcome is lost. -/
def sampleFirstAttempt : List Call :=
  [.enqueue (fun _ => "1") sampleCommand fun _ => .ok (),
    .claimNextForPreflight (fun _ => "lease-1") "2026-07-11T10:00:20.000Z" (some 30000),
    .beginProviderAttempt "1" "lease-1" "attempt-1" "2026-07-11T10:00:21.000Z" (some 60000)]

def sampleFinalize : Call :=
  .finalizeUnknown "1" "lease-1" { atTime := "2026-07-11T10:00:30.000Z", code := "timeout" }

/-- It is sent again, with the risk acknowledged, and accepted. -/
def sampleSecondAttempt : List Call :=
  [.retryUnknown "1" { kind := .user } true "2026-07-11T10:01:00.000Z" fun _ => .ok (),
    .claimNextForPreflight (fun _ => "lease-2") "2026-07-11T10:01:10.000Z" (some 30000),
    .beginProviderAttempt "1" "lease-2" "attempt-2" "2026-07-11T10:01:11.000Z" (some 60000),
    .finalizeAccepted "1" "lease-2" "ses-1" "2026-07-11T10:01:12.000Z"]

def sampleCalls : List Call := sampleFirstAttempt ++ sampleFinalize :: sampleSecondAttempt

theorem sampleCalls_fresh : (sampleCalls.flatMap Call.createdIds).Nodup := by decide

/-- The sample run on the store that keeps the tables. -/
def sampleRun (calls : List Call) : World MemoryStore :=
  World.run sampleService memoryTransaction .empty calls

/-! ### No silent duplicate send -/

/-- **No silent duplicate send.** In every run over a faithful store that starts empty, the
attempts of a delivery that are sending, accepted or unknown are at most one more than the
successful `retryUnknown` calls on it, and at most one is accepted. -/
theorem no_silent_duplicate (service : TruthfulOutboxService) (h : Faithful tx view) {s : σ}
    (hd : (view s).deliveries = []) (ha : (view s).attempts = []) (calls : List Call)
    (hfresh : (calls.flatMap Call.createdIds).Nodup) :
    let w := World.run service tx s calls
    ∀ d ∈ (view w.store).deliveries,
      ((view w.store).attemptsOf d.id).countP (fun a =>
          a.status = .sending || a.status = .accepted || a.status = .unknown) ≤
        1 + (successfulRetryUnknowns w.history).count d.id ∧
      ((view w.store).attemptsOf d.id).countP (fun a => a.status = .accepted) ≤ 1 := by
  intro w d hdw
  have hbudget := (World.run_inv service h hd ha hfresh).tables.budget d hdw
  have hbound : (if atProvider d then 1 else 0) ≤ 1 := by split <;> omega
  have hambiguous := hbudget.ambiguous
  refine ⟨?_, hbudget.accepted⟩
  calc ((view w.store).attemptsOf d.id).countP isAmbiguous
      ≤ (successfulRetryUnknowns w.history).count d.id + if atProvider d then 1 else 0 := hambiguous
    _ ≤ 1 + (successfulRetryUnknowns w.history).count d.id := by omega

/-- The sample run reaches the bound: two attempts that may have been accepted, one
acknowledgement. -/
theorem no_silent_duplicate_sample :
    (sampleRun sampleCalls).store.tables.attempts.map (·.status) = [.unknown, .accepted] ∧
    ∀ d ∈ (sampleRun sampleCalls).store.tables.deliveries,
      ((sampleRun sampleCalls).store.tables.attemptsOf d.id).countP (fun a =>
          a.status = .sending || a.status = .accepted || a.status = .unknown) ≤
        1 + (successfulRetryUnknowns (sampleRun sampleCalls).history).count d.id ∧
      ((sampleRun sampleCalls).store.tables.attemptsOf d.id).countP
        (fun a => a.status = .accepted) ≤ 1 := by
  refine ⟨by decide +kernel, ?_⟩
  unfold sampleRun
  exact no_silent_duplicate sampleService memoryTransaction_faithful MemoryStore.empty_deliveries
    MemoryStore.empty_attempts sampleCalls sampleCalls_fresh

/-! ### Lease coherence -/

/-- The lease fields of a delivery agree with its status and its attempts. -/
structure LeaseCoherence (d : StoredOutboundDelivery) (atts : List OutboundDeliveryAttempt) :
    Prop where
  /-- The attempts are numbered `1` to `attemptCount`. -/
  numbers : atts.map (·.attemptNumber) =
    (List.range' 1 d.attemptCount).map fun n : ℕ => JsNumber.ofInt n
  /-- A lease is set exactly while the delivery is sending. -/
  leased_iff : d.status = .sending ↔ d.leaseToken.isSome ∧ d.leaseExpiresAt.isSome
  /-- While sending, nothing is in flight in preflight, and at the provider exactly the
  attempt the lease names. -/
  phase : d.status = .sending →
    (d.dispatchPhase = some .preflight ∧ d.activeAttemptId = none ∧
      ∀ a ∈ atts, a.status ≠ .sending) ∨
    (d.dispatchPhase = some .provider ∧ ∃ a, atts.filter (·.status = .sending) = [a] ∧
      d.activeAttemptId = some a.id ∧ d.leaseToken = some a.leaseToken)
  /-- In every other status no lease field is set. -/
  idle : d.status ≠ .sending → d.leaseToken = none ∧ d.leaseExpiresAt = none ∧
    d.dispatchPhase = none ∧ d.activeAttemptId = none
  /-- A retry is due at some time. -/
  due : d.status = .retrying → d.nextAttemptAt.isSome
  /-- The origin of a retry is only on record while the retry is under way. -/
  origin : d.retryOriginStatus.isSome →
    d.status = .queued ∨ d.status = .sending ∨ d.status = .retrying

/-- A coherent delivery, in the words of its fields. -/
theorem Coherent.leaseCoherence {d : StoredOutboundDelivery}
    {atts : List OutboundDeliveryAttempt} (hnd : (atts.map (·.id)).Nodup) (h : Coherent d atts) :
    LeaseCoherence d atts where
  numbers := h.numbers
  leased_iff := by
    constructor
    · intro hsending
      obtain ⟨token, htoken, hexpires, -⟩ := h.leased hsending
      exact ⟨by rw [htoken]; rfl, hexpires⟩
    · rintro ⟨htoken, -⟩
      by_contra hne
      rw [(h.idle hne).1.leaseToken] at htoken
      cases htoken
  phase := by
    intro hsending
    obtain ⟨token, htoken, -, hpre | ⟨active, hprovider⟩⟩ := h.leased hsending
    · exact .inl ⟨hpre.dispatchPhase, hpre.activeAttemptId, fun a ha => (hpre.attempts a ha).1⟩
    · refine .inr ⟨hprovider.dispatchPhase, active, ?_, hprovider.activeAttemptId,
        by rw [htoken, hprovider.leaseToken]⟩
      refine Table.filter_eq_singleton hnd hprovider.mem (by simp [hprovider.status])
        fun b hb hne => ?_
      simp [(hprovider.others b hb hne).1]
  idle := by
    intro hne
    have hunleased := (h.idle hne).1
    exact ⟨hunleased.leaseToken, hunleased.leaseExpiresAt, hunleased.dispatchPhase,
      hunleased.activeAttemptId⟩
  due := h.due
  origin := h.origin

/-- **A lease that was given up stays given up.** Once a call settles a delivery, no
delivery ever again holds a token that the delivery held before. -/
theorem World.settled_stale (h : Faithful tx view) {s : σ} (hd : (view s).deliveries = [])
    (ha : (view s).attempts = []) {earlier later after : List Call} {c : Call}
    (hfresh : ((earlier ++ later ++ c :: after).flatMap Call.createdIds).Nodup)
    {result : CallResult} {s' : σ}
    (hok : c.perform service tx (World.run service tx s (earlier ++ later)).store =
      .ok (result, s')) {deliveryId token : String} (hsettled : deliveryId ∈ result.settled)
    (hheld : Holds (view (World.run service tx s earlier).store) deliveryId token) (id : String) :
    ¬ Holds (view (World.run service tx s (earlier ++ later ++ c :: after)).store) id token := by
  intro hnow
  have hfresh₁ : ((earlier ++ later).flatMap Call.createdIds).Nodup := by
    rw [List.flatMap_append] at hfresh
    exact List.Nodup.of_append_left hfresh
  have hfresh₂ : ((earlier ++ later ++ [c]).flatMap Call.createdIds).Nodup := by
    rw [← List.singleton_append, ← List.append_assoc, List.flatMap_append] at hfresh
    exact List.Nodup.of_append_left hfresh
  have hfresh₀ : (earlier.flatMap Call.createdIds).Nodup := by
    rw [List.flatMap_append] at hfresh₁
    exact List.Nodup.of_append_left hfresh₁
  have hinv₀ := World.run_inv service h hd ha hfresh₀
  have hinv₁ := World.run_inv service h hd ha hfresh₁
  have hinv₂ := World.run_inv service h hd ha hfresh₂
  -- the token was drawn before the delivery gave it up, so nothing later draws it
  have hdrawn : (IdPrefix.lease, token) ∈ earlier.flatMap Call.createdIds := by
    have hmem := hinv₀.tokens token (.inl ⟨deliveryId, hheld⟩)
    rwa [World.drawn_run] at hmem
  have hsplit : (earlier ++ later ++ c :: after).flatMap Call.createdIds =
      earlier.flatMap Call.createdIds ++ (later ++ c :: after).flatMap Call.createdIds := by
    rw [List.append_assoc, List.flatMap_append]
  have hnotLater : (IdPrefix.lease, token) ∉ (later ++ c :: after).flatMap Call.createdIds :=
    List.disjoint_of_nodup_append (hsplit ▸ hfresh) hdrawn
  have hnotAfter : (IdPrefix.lease, token) ∉ after.flatMap Call.createdIds := by
    intro hmem
    refine hnotLater ?_
    rw [List.flatMap_append, List.flatMap_cons]
    exact List.mem_append_right _ (List.mem_append_right _ hmem)
  -- so whoever holds it now held it at the start, and that is the delivery itself
  have hearly : Holds (view (World.run service tx s earlier).store) id token := by
    rw [List.append_assoc, World.run_append] at hnow
    refine (World.run_held h hinv₀ ?_ hnow).resolve_right hnotLater
    rw [World.drawn_run, ← hsplit]
    exact hfresh
  obtain ⟨d, hdmem, hdid, hdtoken⟩ := hheld
  obtain ⟨r, hrmem, hrid, hrtoken⟩ := hearly
  have hsame : id = deliveryId :=
    hrid.symm.trans ((hinv₀.tables.leases r hrmem d hdmem token hrtoken hdtoken).trans hdid)
  -- but right after the call it holds no lease
  have hafter : Holds (view (World.run service tx s (earlier ++ later ++ [c])).store) id token := by
    rw [← List.singleton_append, ← List.append_assoc, World.run_append] at hnow
    refine (World.run_held h hinv₂ ?_ hnow).resolve_right hnotAfter
    rw [World.drawn_run, ← List.flatMap_append, List.append_assoc (earlier ++ later),
      List.singleton_append]
    exact hfresh
  rw [World.run_concat, World.call_ok hok] at hafter
  obtain ⟨q, hqmem, hqid, hqtoken⟩ := hafter
  have hreleased := Call.perform_settled h hinv₁.tables hok deliveryId hsettled
  exact (hreleased q hqmem (hqid.trans hsame)).token_ne hqtoken

/-- **Lease-to-attempt coherence.** In every state a run reaches, every delivery is
coherent; and once a deferral, failure, finalization, cancellation or recovery has settled a
delivery, every later call that presents a lease token the delivery held before throws and
changes nothing. What is thrown is the lease error, except that `finalizeAccepted` rejects a
blank message id first. -/
theorem lease_coherence (service : TruthfulOutboxService) (h : Faithful tx view) {s : σ}
    (hd : (view s).deliveries = []) (ha : (view s).attempts = []) (calls : List Call)
    (hfresh : (calls.flatMap Call.createdIds).Nodup) :
    let w := World.run service tx s calls
    (∀ d ∈ (view w.store).deliveries, LeaseCoherence d ((view w.store).attemptsOf d.id)) ∧
    ∀ earlier later c after result s', calls = earlier ++ later ++ c :: after →
      c.perform service tx (World.run service tx s (earlier ++ later)).store = .ok (result, s') →
      ∀ settledId ∈ result.settled, ∀ token,
      Holds (view (World.run service tx s earlier).store) settledId token →
      ∀ stale deliveryId, Call.presents stale = some (deliveryId, token) →
        (stale.perform service tx w.store = .error (.deliveryLease deliveryId) ∨
          ∃ messageId atTime, stale = .finalizeAccepted deliveryId token messageId atTime ∧
            isBlank messageId = true ∧ stale.perform service tx w.store =
              .error (.plain "SES acceptance requires a MessageId")) ∧
        (w.call service tx stale).store = w.store := by
  intro w
  have hinv := (World.run_inv service h hd ha hfresh).tables
  refine ⟨fun d hdw => (hinv.coherent d hdw).leaseCoherence
    (hinv.attemptIds.sublist (List.filter_sublist.map _)), ?_⟩
  intro earlier later c after result s' hcalls hok settledId hsettled token hheld stale deliveryId
    hpresents
  subst hcalls
  have hthrows := Call.perform_stale service h hpresents
    (World.settled_stale h hd ha hfresh hok hsettled hheld)
  refine ⟨hthrows, ?_⟩
  rcases hthrows with herror | ⟨_, _, _, _, herror⟩ <;> rw [World.call_error herror]

/-- In the sample run the first lease is given up by `finalizeUnknown`, and a worker that
presents it again at the end of the run is turned away. -/
theorem lease_coherence_sample :
    (∀ d ∈ (sampleRun sampleCalls).store.tables.deliveries,
      LeaseCoherence d ((sampleRun sampleCalls).store.tables.attemptsOf d.id)) ∧
    ∀ messageId atTime, ((sampleRun sampleCalls).call sampleService memoryTransaction
      (.finalizeAccepted "1" "lease-1" messageId atTime)).store =
        (sampleRun sampleCalls).store := by
  unfold sampleRun
  obtain ⟨hcoherent, hstale⟩ :=
    lease_coherence sampleService memoryTransaction_faithful MemoryStore.empty_deliveries
      MemoryStore.empty_attempts sampleCalls sampleCalls_fresh
  refine ⟨hcoherent, fun messageId atTime => ?_⟩
  have hsettled : (match sampleFinalize.perform sampleService memoryTransaction
      (World.run sampleService memoryTransaction .empty (sampleFirstAttempt ++ [])).store with
      | .ok r => r.1.settled
      | .error _ => []) = ["1"] := by decide +kernel
  have hheld : Holds
      (World.run sampleService memoryTransaction .empty sampleFirstAttempt).store.tables
      "1" "lease-1" := by
    unfold Holds
    decide +kernel
  cases hok : sampleFinalize.perform sampleService memoryTransaction
      (World.run sampleService memoryTransaction .empty (sampleFirstAttempt ++ [])).store with
  | error e =>
      rw [hok] at hsettled
      cases hsettled
  | ok r =>
      rw [hok] at hsettled
      have hmem : "1" ∈ r.1.settled := by
        change r.1.settled = ["1"] at hsettled
        rw [hsettled]
        exact List.mem_singleton_self _
      exact (hstale sampleFirstAttempt [] sampleFinalize sampleSecondAttempt r.1 r.2 rfl hok "1"
        hmem "lease-1" hheld (.finalizeAccepted "1" "lease-1" messageId atTime) "1" rfl).2

/-- A stale lease is not always answered by the lease error: `finalizeAccepted` looks at its
message id first. -/
theorem stale_finalizeAccepted_blank :
    Holds (sampleRun sampleFirstAttempt).store.tables "1" "lease-1" ∧
    (∀ id, ¬ Holds (sampleRun (sampleFirstAttempt ++ [sampleFinalize])).store.tables id "lease-1") ∧
    Call.perform sampleService memoryTransaction
        (sampleRun (sampleFirstAttempt ++ [sampleFinalize])).store
        (.finalizeAccepted "1" "lease-1" "" "2026-07-11T10:00:40.000Z") =
      .error (.plain "SES acceptance requires a MessageId") ∧
    OutboxError.plain "SES acceptance requires a MessageId" ≠ .deliveryLease "1" := by
  refine ⟨by unfold Holds; decide +kernel, ?_, rfl, nofun⟩
  rintro id ⟨d, hd, -, htoken⟩
  have hnone : ∀ d ∈ (sampleRun (sampleFirstAttempt ++ [sampleFinalize])).store.tables.deliveries,
      d.leaseToken ≠ some "lease-1" := by decide +kernel
  exact hnone d hd htoken

end Runs

end MailPortal.Outbox
