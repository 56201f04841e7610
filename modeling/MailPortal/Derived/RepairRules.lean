import MailPortal.Derived.LedgerRules
import MailPortal.Derived.RepairReconcile

/-!
# What may be Done to an Attempt

Of one attempt, the pending key holds its record or nothing, and the resolved key holds one of its
two resolutions or nothing; a resolution that is there stays. What a worker knows of the resolution
and of the clean-up therefore stays true while it waits, and when it deletes the pending record,
both are done.

Main definitions:

* `RepairInv`, `RepairStep` : what always holds, and what a turn may do.
* `Allowed` : the operations that a worker with some knowledge may call, one lemma for each.
-/

namespace MailPortal.Derived

open Concurrent Json

variable {K : LedgerWorld → Prop}
variable {resolution : RepairResolution}

/-! ### Keys -/

theorem pendingKey_ne_resolvedKey (attempt other : RepairAttempt) :
    attempt.pendingKey ≠ other.resolvedKey :=
  append_ne_append 40 (by decide) (by decide) (by decide)

theorem cursorKey_ne_pendingKey (attempt : RepairAttempt) :
    repairCursorKey ≠ attempt.pendingKey := by
  have hne : repairCursorKey ++ "" ≠ attempt.pendingKey :=
    append_ne_append 40 (by decide) (by decide) (by decide)
  rwa [String.append_empty] at hne

theorem cursorKey_ne_resolvedKey (attempt : RepairAttempt) :
    repairCursorKey ≠ attempt.resolvedKey := by
  have hne : repairCursorKey ++ "" ≠ attempt.resolvedKey :=
    append_ne_append 40 (by decide) (by decide) (by decide)
  rwa [String.append_empty] at hne

/-- Attempts that share the one key share the other. -/
theorem pendingKey_eq_iff (attempt other : RepairAttempt) :
    attempt.pendingKey = other.pendingKey ↔ attempt.resolvedKey = other.resolvedKey :=
  (String.append_right_inj _).trans (String.append_right_inj _).symm

/-! ### The rules -/

def pendingText (attempt : RepairAttempt) : String := stringify (attemptJson attempt)

def resolvedText (attempt : RepairAttempt) (resolution : RepairResolution) : String :=
  stringify (resolutionJson resolution attempt)

/-- The resolution is stored. -/
def Durable (attempt : RepairAttempt) (resolution : RepairResolution) (w : LedgerWorld) : Prop :=
  w.bucket attempt.resolvedKey = some (resolvedText attempt resolution)

/-- A clean-up has accounted for every object of the attempt, if there are any. -/
def Cleaned (attempt : RepairAttempt) (w : LedgerWorld) : Prop :=
  attempt.proof.objects = [] ∨ ∃ counts, (attempt.cleanupRequest, some counts) ∈ w.requests ∧
    counts.accountFor attempt.proof.objects = true

/-- **What always holds** of an attempt. -/
structure RepairInv (attempt : RepairAttempt) (w : LedgerWorld) : Prop where
  pending : w.bucket attempt.pendingKey = none ∨
    w.bucket attempt.pendingKey = some (pendingText attempt)
  resolved : w.bucket attempt.resolvedKey = none ∨ ∃ resolution, Durable attempt resolution w
  noted : ∀ resolution, LedgerNote.resolved attempt resolution ∈ w.noted →
    Durable attempt resolution w

/-- **What a turn may do** to an attempt. -/
structure RepairStep (attempt : RepairAttempt) (w w' : LedgerWorld) : Prop where
  durable : ∀ resolution, Durable attempt resolution w → Durable attempt resolution w'
  requests : ∀ request ∈ w.requests, request ∈ w'.requests
  forgotten : w.bucket attempt.pendingKey ≠ none → w'.bucket attempt.pendingKey = none →
    ∃ resolution, Durable attempt resolution w ∧ (resolution = .discarded → Cleaned attempt w)

variable {attempt : RepairAttempt} {w w' : LedgerWorld}

theorem RepairStep.refl : RepairStep attempt w w :=
  ⟨fun _ h => h, fun _ h => h, fun h h' => absurd h' h⟩

theorem known_durable (P : Prop) (resolution : RepairResolution) :
    Lasting (RepairStep attempt) fun w => P → Durable attempt resolution w :=
  fun _ _ hstep h hP => hstep.durable resolution (h hP)

theorem known_cleaned (P : Prop) : Lasting (RepairStep attempt) fun w => P → Cleaned attempt w := by
  intro w w' hstep h hP
  exact (h hP).imp id fun ⟨counts, hmem, hcounts⟩ => ⟨counts, hstep.requests _ hmem, hcounts⟩

/-- The program keeps to the rules of an attempt. -/
abbrev RepairKeeps {α : Type} (attempt : RepairAttempt) (Q : α → LedgerWorld → Prop)
    (p : LedgerProg α) (w : LedgerWorld) : Prop :=
  LedgerKeeps (RepairInv attempt) (RepairStep attempt) Q p w

/-- An operation that a worker with this knowledge may call. -/
abbrev Allowed (attempt : RepairAttempt) (K : LedgerWorld → Prop) (op : LedgerOp) : Prop :=
  Permits LedgerOp.Exec (RepairInv attempt) (RepairStep attempt) K op

/-! ### The operations -/

theorem allowed_of_eq {op : LedgerOp} (h : ∀ w answer w', op.Exec w answer w' → w' = w) :
    Allowed attempt K op :=
  permits_of_eq (fun _ => .refl) h

/-- Nothing is forgotten where the two keys of an attempt hold what they held. -/
theorem repairInv_frame (hinv : RepairInv attempt w)
    (hpending : w'.bucket attempt.pendingKey = w.bucket attempt.pendingKey)
    (hresolved : w'.bucket attempt.resolvedKey = w.bucket attempt.resolvedKey)
    (hrequests : ∀ request ∈ w.requests, request ∈ w'.requests)
    (hnoted : ∀ resolution, LedgerNote.resolved attempt resolution ∈ w'.noted →
      Durable attempt resolution w) :
    RepairInv attempt w' ∧ RepairStep attempt w w' := by
  have hdurable : ∀ resolution, Durable attempt resolution w' ↔ Durable attempt resolution w := by
    intro resolution
    simp only [Durable, hresolved]
  refine ⟨⟨?_, ?_, ?_⟩, ⟨fun resolution => (hdurable resolution).mpr, hrequests, ?_⟩⟩
  · rw [hpending]
    exact hinv.pending
  · rw [hresolved]
    exact hinv.resolved.imp id fun ⟨resolution, h⟩ => ⟨resolution, (hdurable resolution).mpr h⟩
  · exact fun resolution h => (hdurable resolution).mpr (hnoted resolution h)
  · intro hsome hnone
    rw [hpending] at hnone
    exact absurd hnone hsome

section

variable {key : String} (hpending : key ≠ attempt.pendingKey)
  (hresolved : key ≠ attempt.resolvedKey)
include hpending hresolved

theorem allowed_put_other {value : String} {condition : R2Condition} :
    Allowed attempt K (.put key value condition) := by
  intro w hinv _ answer w' hexec
  rcases exec_put hexec with rfl | ⟨-, rfl⟩
  · exact ⟨hinv, .refl⟩
  · exact repairInv_frame hinv (w.write_of_ne hpending.symm _) (w.write_of_ne hresolved.symm _)
      (fun _ h => h) hinv.noted

theorem allowed_delete_other : Allowed attempt K (.delete key) := by
  intro w hinv _ answer w' hexec
  rcases exec_delete hexec with rfl | rfl
  · exact ⟨hinv, .refl⟩
  · exact repairInv_frame hinv (Bucket.set_of_ne hpending.symm _ _)
      (Bucket.set_of_ne hresolved.symm _ _) (fun _ h => h) hinv.noted

end

/-- The pending record is written if there is none. -/
theorem allowed_put_pending :
    Allowed attempt K (.put attempt.pendingKey (pendingText attempt) .absent) := by
  intro w hinv _ answer w' hexec
  rcases exec_put hexec with rfl | ⟨-, rfl⟩
  · exact ⟨hinv, .refl⟩
  · have hpending : (w.write attempt.pendingKey (pendingText attempt)).bucket attempt.pendingKey =
        some (pendingText attempt) := w.write_self ..
    have hresolved : (w.write attempt.pendingKey (pendingText attempt)).bucket
        attempt.resolvedKey = w.bucket attempt.resolvedKey :=
      w.write_of_ne (pendingKey_ne_resolvedKey attempt attempt).symm _
    have hdurable : ∀ resolution, Durable attempt resolution w → Durable attempt resolution
        (w.write attempt.pendingKey (pendingText attempt)) :=
      fun resolution h => hresolved.trans h
    refine ⟨⟨.inr hpending, ?_, fun resolution h => hdurable resolution (hinv.noted resolution h)⟩,
      hdurable, fun _ h => h, fun _ hnone => ?_⟩
    · rw [hresolved]
      exact hinv.resolved.imp id fun ⟨resolution, h⟩ => ⟨resolution, hdurable resolution h⟩
    · cases hpending.symm.trans hnone

/-- **A resolution is written if there is none.** -/
theorem allowed_put_resolved (resolution : RepairResolution) :
    Allowed attempt K (.put attempt.resolvedKey (resolvedText attempt resolution) .absent) := by
  intro w hinv _ answer w' hexec
  rcases exec_put hexec with rfl | ⟨habsent, rfl⟩
  · exact ⟨hinv, .refl⟩
  · have hpending : (w.write attempt.resolvedKey (resolvedText attempt resolution)).bucket
        attempt.pendingKey = w.bucket attempt.pendingKey :=
      w.write_of_ne (pendingKey_ne_resolvedKey attempt attempt) _
    -- there was none, so that no resolution is replaced
    have hnone : ∀ other, ¬ Durable attempt other w := by
      intro other hother
      rw [Durable, habsent] at hother
      cases hother
    refine ⟨⟨?_, .inr ⟨resolution, w.write_self ..⟩, fun other h =>
      absurd (hinv.noted other h) (hnone other)⟩, fun other h => absurd h (hnone other),
      fun _ h => h, fun hsome hforgotten => ?_⟩
    · rw [hpending]
      exact hinv.pending
    · rw [hpending] at hforgotten
      exact absurd hforgotten hsome

/-- **The pending record is deleted** by a worker who knows that it may be. -/
theorem allowed_delete_pending (hdurable : ∀ w, K w → Durable attempt resolution w)
    (hcleaned : ∀ w, K w → resolution = .discarded → Cleaned attempt w) :
    Allowed attempt K (.delete attempt.pendingKey) := by
  intro w hinv hK answer w' hexec
  rcases exec_delete hexec with rfl | rfl
  · exact ⟨hinv, .refl⟩
  · have hresolved : w.bucket.set attempt.pendingKey none attempt.resolvedKey =
        w.bucket attempt.resolvedKey :=
      Bucket.set_of_ne (pendingKey_ne_resolvedKey attempt attempt).symm _ _
    have hkept : ∀ other, Durable attempt other w → Durable attempt other
        { w with bucket := w.bucket.set attempt.pendingKey none } :=
      fun other h => hresolved.trans h
    refine ⟨⟨.inl (Bucket.set_self ..), ?_, fun other h => hkept other (hinv.noted other h)⟩,
      hkept, fun _ h => h, fun _ _ => ⟨resolution, hdurable w hK, hcleaned w hK⟩⟩
    simp only [hresolved]
    exact hinv.resolved.imp id fun ⟨other, h⟩ => ⟨other, hkept other h⟩

theorem allowed_enqueue (mailboxId : String) (request : CleanupProofRequest) :
    Allowed attempt K (.enqueue mailboxId request) := by
  intro w hinv _ answer w' hexec
  obtain rfl : w' = { w with requests := (request, answer) :: w.requests } := hexec
  exact repairInv_frame hinv rfl rfl (fun _ h => List.mem_cons_of_mem _ h) hinv.noted

theorem allowed_note {other : RepairAttempt}
    (h : ∀ w, K w → other = attempt → Durable attempt resolution w) :
    Allowed attempt K (.note (.resolved other resolution)) := by
  intro w hinv hK answer w' hexec
  obtain rfl : w' = { w with noted := .resolved other resolution :: w.noted } := hexec
  refine repairInv_frame hinv rfl rfl (fun _ h => h) fun found hfound => ?_
  rcases List.mem_cons.mp hfound with heq | hfound
  · cases heq
    exact h w hK rfl
  · exact hinv.noted found hfound

end MailPortal.Derived
