import MailPortal.Outbox.Lifecycle

/-!
# Faithful Stores

The service trusts its store to keep what it is given. `Faithful tx view` says what that
trust amounts to: through `view` the store is a table of deliveries and a table of
attempts, a read returns rows of these tables, a write that does not fail changes exactly
the row it names, and an insert under an identity that exists is refused.

Nothing is assumed of the snapshots, of the searches by idempotency key and by source
draft, or of the repair of a broken dispatch record: the results hold whatever these do.

`memoryTransaction` is the store that keeps the tables themselves, and it is faithful.
-/

namespace MailPortal.Outbox

variable {σ : Type}

/-- The seam `tx` keeps the tables that `view` shows. -/
structure Faithful (tx : OutboundDeliveryTransaction σ) (view : σ → OutboxTables) : Prop where
  getDelivery : ∀ id s, tx.getDelivery id s = Table.lookup (·.id) id (view s).deliveries
  listDeliveries : ∀ s, (tx.listDeliveries s).Perm (view s).deliveries
  listAttemptsByDelivery : ∀ id s, (tx.listAttemptsByDelivery id s).Perm ((view s).attemptsOf id)
  /-- A candidate is a stored delivery that waits. -/
  readyCandidate : ∀ find, tx.findNextDispatchableCandidate = some find → ∀ now s d,
    find now s = .ok (some (.ready d)) →
      d ∈ (view s).deliveries ∧ (d.status = .queued ∨ d.status = .retrying)
  /-- A broken candidate is a waiting delivery with a lease field set. -/
  brokenCandidate : ∀ find, tx.findNextDispatchableCandidate = some find → ∀ now s failure,
    find now s = .ok (some (.integrityFailure failure)) →
      ∃ d ∈ (view s).deliveries, (d.status = .queued ∨ d.status = .retrying) ∧ ¬ Unleased d
  nextDispatchable : ∀ find, tx.findNextDispatchable = some find → ∀ now s d,
    find now s = .ok (some d) → d ∈ (view s).deliveries
  expiredSending : ∀ list, tx.listExpiredSending = some list → ∀ now s ds s',
    list now s = .ok (ds, s') →
      view s' = view s ∧ (ds.map (·.id)).Nodup ∧ ∀ d ∈ ds, d ∈ (view s).deliveries
  insertDelivery : ∀ d s s', tx.insertDelivery d s = .ok s' →
    (∀ r ∈ (view s).deliveries, r.id ≠ d.id) ∧ view s' = (view s).insertDelivery d
  updateDelivery : ∀ d s s', tx.updateDelivery d s = .ok s' →
    view s' = (view s).updateDelivery d
  insertSnapshot : ∀ emailId snapshot s s', tx.insertSnapshot emailId snapshot s = .ok s' →
    view s' = view s
  insertAttempt : ∀ a s s', tx.insertAttempt a s = .ok s' →
    (∀ r ∈ (view s).attempts, r.id ≠ a.id) ∧ view s' = (view s).insertAttempt a
  updateAttempt : ∀ a s s', tx.updateAttempt a s = .ok s' → view s' = (view s).updateAttempt a
  acceptedRecovery : ∀ record, tx.recordAcceptedRecovery = some record → ∀ d a s s',
    record d a s = .ok s' → view s' = view s

/-! ### The store that keeps the tables -/

/-- The tables of the outbox with their snapshots, by email identity. -/
structure MemoryStore where
  tables : OutboxTables
  snapshots : List (String × OutboundMessageSnapshot)

/-- The empty store. -/
def MemoryStore.empty : MemoryStore := ⟨⟨[], []⟩, []⟩

theorem MemoryStore.empty_deliveries : MemoryStore.empty.tables.deliveries = [] := rfl

theorem MemoryStore.empty_attempts : MemoryStore.empty.tables.attempts = [] := rfl

/-- The seam over a `MemoryStore`, with none of the optional operations and no drafts. -/
def memoryTransaction : OutboundDeliveryTransaction MemoryStore where
  findDeliveryByIdempotencyKey key s := s.tables.deliveries.find? (·.idempotencyKey = key)
  findDeliveryBySourceDraft := none
  assertSourceDraftVersion _ _ _ := .notFound
  getDelivery id s := Table.lookup (·.id) id s.tables.deliveries
  listDeliveries s := s.tables.deliveries
  findNextDispatchableCandidate := none
  findNextDispatchable := none
  failDispatchableIntegrity := none
  listExpiredSending := none
  insertDelivery d s :=
    if s.tables.deliveries.any (·.id = d.id) then .error (.plain "UNIQUE constraint failed")
    else .ok { s with tables := s.tables.insertDelivery d }
  updateDelivery d s := .ok { s with tables := s.tables.updateDelivery d }
  insertSnapshot emailId snapshot s :=
    .ok { s with snapshots := s.snapshots ++ [(emailId, snapshot)] }
  getSnapshot emailId s := (Table.lookup (·.1) emailId s.snapshots).map (·.2)
  insertAttempt a s :=
    if s.tables.attempts.any (·.id = a.id) then .error (.plain "UNIQUE constraint failed")
    else .ok { s with tables := s.tables.insertAttempt a }
  listAttemptsByDelivery id s := s.tables.attemptsOf id
  updateAttempt a s := .ok { s with tables := s.tables.updateAttempt a }
  recordAcceptedRecovery := none

theorem memoryTransaction_faithful : Faithful memoryTransaction MemoryStore.tables where
  getDelivery _ _ := rfl
  listDeliveries _ := .refl _
  listAttemptsByDelivery _ _ := .refl _
  readyCandidate := nofun
  brokenCandidate := nofun
  nextDispatchable := nofun
  expiredSending := nofun
  insertDelivery := by
    intro d s s' h
    simp only [memoryTransaction] at h
    split at h
    · cases h
    · next hnew =>
        cases h
        exact ⟨by simpa using hnew, rfl⟩
  updateDelivery := by rintro d s s' ⟨⟩; rfl
  insertSnapshot := by rintro emailId snapshot s s' ⟨⟩; rfl
  insertAttempt := by
    intro a s s' h
    simp only [memoryTransaction] at h
    split at h
    · cases h
    · next hnew =>
        cases h
        exact ⟨by simpa using hnew, rfl⟩
  updateAttempt := by rintro a s s' ⟨⟩; rfl
  acceptedRecovery := nofun

/-! ### What a faithful store returns -/

section Reads

variable {tx : OutboundDeliveryTransaction σ} {view : σ → OutboxTables} {s : σ}
  {d : StoredOutboundDelivery} {id : String}

/-- A delivery that is read is in the table. -/
theorem Faithful.getDelivery_mem (h : Faithful tx view) (hget : tx.getDelivery id s = some d) :
    d ∈ (view s).deliveries ∧ d.id = id := by
  rw [h.getDelivery] at hget
  exact Table.lookup_eq_some hget

/-- The attempts that are listed are those of the delivery. -/
theorem Faithful.mem_listAttempts (h : Faithful tx view) {a : OutboundDeliveryAttempt} :
    a ∈ tx.listAttemptsByDelivery id s ↔ a ∈ (view s).attempts ∧ a.deliveryId = id := by
  rw [(h.listAttemptsByDelivery id s).mem_iff, OutboxTables.mem_attemptsOf]

end Reads

end MailPortal.Outbox
