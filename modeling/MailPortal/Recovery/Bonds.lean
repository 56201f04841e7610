import MailPortal.Recovery.Delivery

/-!
# Rows and Attempts

An attempt is bound to the row it was made for while it is dispatching or accepted, and a row to
its attempt: they have the same id and the same state. Most updates change only rows that nothing
is bound to; the others change both ends of a bond.

Main results:

* `DeliveryInv` : every end of a bond has another.
* `DeliveryStep.update`, `DeliveryStep.append`, `DeliveryStep.resolve` : the updates that keep it.
-/

namespace MailPortal.Recovery

open Table DeliveryAttempt

variable {row : DeliveryRow} {token : Option String} {attempt : DeliveryAttempt}
  {f : DeliveryRow → DeliveryRow}
variable {p : DeliveryRow → Bool}

/-! ### Rows and attempts -/

/-- A row that is finished. -/
def DeliveryState.final : DeliveryState → Bool
  | .accepted => true
  | .cancelled => true
  | .expired => true
  | .parked => true
  | _ => false

/-- The secret is kept while the mail may be sent, and when it is parked. -/
def DeliveryState.keepsSecret : DeliveryState → Bool
  | .pending => true
  | .leased => true
  | .dispatching => true
  | .parked => true
  | _ => false

def DeliveryRow.SecretKept (row : DeliveryRow) : Prop :=
  row.payload.isSome = row.state.keepsSecret

/-- The attempt that a row is bound to, as the row knows it. -/
def DeliveryRow.link (row : DeliveryRow) : Option (AttemptState × Option String) :=
  match row.state with
  | .dispatching => some (.dispatching, row.leaseToken)
  | .accepted => some (.accepted, row.acceptedAttemptId)
  | _ => none

/-- The same, as the attempt knows it. -/
def DeliveryAttempt.link (attempt : DeliveryAttempt) : Option (AttemptState × Option String) :=
  match attempt.state with
  | .dispatching => some (.dispatching, some attempt.attemptId)
  | .accepted => some (.accepted, some attempt.attemptId)
  | _ => none

/-- The attempt was made for the row, and they agree. -/
structure Bound (attempt : DeliveryAttempt) (row : DeliveryRow) : Prop where
  id : attempt.outboxId = row.id
  link : attempt.link = row.link

/-- **The invariant of the deliveries.** -/
structure DeliveryInv (outbox : List DeliveryRow) (attempts : List DeliveryAttempt) : Prop where
  rowIds : (outbox.map DeliveryRow.id).Nodup
  attemptIds : (attempts.map attemptId).Nodup
  secret : ∀ row ∈ outbox, row.SecretKept
  attemptBound : ∀ attempt ∈ attempts, attempt.link ≠ none → ∃ row ∈ outbox, Bound attempt row
  rowBound : ∀ row ∈ outbox, row.link ≠ none → ∃ attempt ∈ attempts, Bound attempt row

theorem link_eq_dispatching (h : row.link = some (.dispatching, token)) :
    row.state = .dispatching ∧ row.leaseToken = token := by
  cases hstate : row.state <;> simp_all [DeliveryRow.link]

theorem link_eq_accepted (h : row.link = some (.accepted, token)) :
    row.state = .accepted ∧ row.acceptedAttemptId = token := by
  cases hstate : row.state <;> simp_all [DeliveryRow.link]

theorem attempt_link_eq_dispatching (h : attempt.link = some (.dispatching, token)) :
    attempt.state = .dispatching ∧ some attempt.attemptId = token := by
  cases hstate : attempt.state <;> simp_all [link]

theorem attempt_link_eq_accepted (h : attempt.link = some (.accepted, token)) :
    attempt.state = .accepted ∧ some attempt.attemptId = token := by
  cases hstate : attempt.state <;> simp_all [link]

theorem link_of_dispatching (h : row.state = .dispatching) :
    row.link = some (.dispatching, row.leaseToken) := by
  rw [DeliveryRow.link, h]

theorem link_of_accepted (h : row.state = .accepted) :
    row.link = some (.accepted, row.acceptedAttemptId) := by
  rw [DeliveryRow.link, h]

theorem attempt_link_of_dispatching (h : attempt.state = .dispatching) :
    attempt.link = some (.dispatching, some attempt.attemptId) := by
  rw [link, h]

theorem attempt_link_of_accepted (h : attempt.state = .accepted) :
    attempt.link = some (.accepted, some attempt.attemptId) := by
  rw [link, h]

/-- Of a bond, both ends meet the conditions of a lease or neither does. -/
theorem Bound.openFor_iff (h : Bound attempt row) (id leaseToken : String) :
    attempt.openFor id leaseToken = true ↔ row.dispatchedBy id leaseToken = true := by
  simp only [openFor, DeliveryRow.dispatchedBy, Bool.and_eq_true,
    decide_eq_true_eq]
  constructor
  · rintro ⟨⟨htoken, hid⟩, hstate⟩
    have hlink := h.link
    rw [attempt_link_of_dispatching hstate] at hlink
    obtain ⟨hrow, hlease⟩ := link_eq_dispatching hlink.symm
    exact ⟨⟨h.id.symm.trans hid, hrow⟩, hlease.trans (congrArg some htoken)⟩
  · rintro ⟨⟨hid, hstate⟩, hlease⟩
    have hlink := h.link
    rw [link_of_dispatching hstate] at hlink
    obtain ⟨hattempt, htoken⟩ := attempt_link_eq_dispatching hlink
    exact ⟨⟨Option.some.inj (htoken.trans hlease), h.id.trans hid⟩, hattempt⟩

/-! ### Steps -/

variable {outbox outbox' outbox'' : List DeliveryRow}
  {attempts attempts' attempts'' : List DeliveryAttempt}

/-- What an event does to the rows and the attempts: it keeps the invariant and the finished rows,
and makes the attempts `new`. -/
structure DeliveryStep (new : List String) (outbox : List DeliveryRow)
    (attempts : List DeliveryAttempt) (outbox' : List DeliveryRow)
    (attempts' : List DeliveryAttempt) : Prop where
  inv : DeliveryInv outbox attempts → DeliveryInv outbox' attempts'
  final : ∀ row ∈ outbox, row.state.final = true → row ∈ outbox'
  ids : DeliveryInv outbox attempts →
    attempts'.map attemptId = attempts.map attemptId ++ new

theorem DeliveryStep.refl : DeliveryStep [] outbox attempts outbox attempts where
  inv h := h
  final _ hrow _ := hrow
  ids _ := (List.append_nil _).symm

theorem DeliveryStep.trans (h : DeliveryStep [] outbox attempts outbox' attempts')
    (h' : DeliveryStep [] outbox' attempts' outbox'' attempts'') :
    DeliveryStep [] outbox attempts outbox'' attempts'' where
  inv hinv := h'.inv (h.inv hinv)
  final row hrow hfinal := h'.final row (h.final row hrow hfinal) hfinal
  ids hinv := by rw [h'.ids (h.inv hinv), h.ids hinv, List.append_nil, List.append_nil]

/-- Rows that do not meet the condition of an update stay. -/
theorem final_updateWhere (h : ∀ row, p row = true → row.state.final = false) (hrow : row ∈ outbox)
    (hfinal : row.state.final = true) : row ∈ updateWhere p f outbox := by
  refine mem_updateWhere.mpr (.inr ⟨hrow, ?_⟩)
  rw [← Bool.not_eq_true]
  intro hp
  rw [h row hp] at hfinal
  cases hfinal

/-- **An update that no attempt notices.** -/
theorem DeliveryStep.update (hid : ∀ row, (f row).id = row.id)
    (hfinal : ∀ row, p row = true → row.state.final = false)
    (hsecret : ∀ row, p row = true → row.SecretKept → (f row).SecretKept)
    (hlink : ∀ row, p row = true → (f row).link = row.link) :
    DeliveryStep [] outbox attempts (updateWhere p f outbox) attempts where
  inv h := by
    refine ⟨?_, h.attemptIds, ?_, ?_, ?_⟩
    · rw [map_key_updateWhere hid]
      exact h.rowIds
    · intro row hrow
      rcases mem_updateWhere.mp hrow with ⟨old, hold, hp, rfl⟩ | ⟨hold, -⟩
      · exact hsecret old hp (h.secret old hold)
      · exact h.secret row hold
    · intro attempt hattempt hne
      obtain ⟨row, hrow, hbound⟩ := h.attemptBound attempt hattempt hne
      cases hp : p row with
      | true =>
          refine ⟨f row, mem_updateWhere.mpr (.inl ⟨row, hrow, hp, rfl⟩), ?_⟩
          exact ⟨hbound.id.trans (hid row).symm, hbound.link.trans (hlink row hp).symm⟩
      | false => exact ⟨row, mem_updateWhere.mpr (.inr ⟨hrow, hp⟩), hbound⟩
    · intro row hrow hne
      rcases mem_updateWhere.mp hrow with ⟨old, hold, hp, rfl⟩ | ⟨hold, -⟩
      · rw [hlink old hp] at hne
        obtain ⟨attempt, hattempt, hbound⟩ := h.rowBound old hold hne
        exact ⟨attempt, hattempt, hbound.id.trans (hid old).symm,
          hbound.link.trans (hlink old hp).symm⟩
      · exact h.rowBound row hold hne
  final _ hrow hrowFinal := final_updateWhere hfinal hrow hrowFinal
  ids _ := (List.append_nil _).symm

/-- A new row that is not bound. -/
theorem DeliveryStep.append (hid : ∀ other ∈ outbox, other.id ≠ row.id) (hsecret : row.SecretKept)
    (hlink : row.link = none) :
    DeliveryStep [] outbox attempts (outbox ++ [row]) attempts where
  inv h := by
    refine ⟨?_, h.attemptIds, ?_, ?_, ?_⟩
    · rw [List.map_append, List.map_singleton, List.nodup_append]
      refine ⟨h.rowIds, List.nodup_singleton _, fun a ha b hb => ?_⟩
      obtain ⟨other, hother, rfl⟩ := List.mem_map.mp ha
      rw [List.mem_singleton.mp hb]
      exact hid other hother
    · intro other hother
      rcases List.mem_append.mp hother with hold | hnew
      · exact h.secret other hold
      · rw [List.mem_singleton.mp hnew]
        exact hsecret
    · intro attempt hattempt hne
      obtain ⟨other, hother, hbound⟩ := h.attemptBound attempt hattempt hne
      exact ⟨other, List.mem_append_left _ hother, hbound⟩
    · intro other hother hne
      rcases List.mem_append.mp hother with hold | hnew
      · exact h.rowBound other hold hne
      · rw [List.mem_singleton.mp hnew] at hne
        exact absurd hlink hne
  final _ hrow _ := List.mem_append_left _ hrow
  ids _ := (List.append_nil _).symm

/-- **An update of both ends** of the bond of a lease. -/
theorem DeliveryStep.resolve {id leaseToken : String} {g : DeliveryAttempt → DeliveryAttempt}
    (hid : ∀ row, (f row).id = row.id)
    (hattemptId : ∀ attempt, (g attempt).attemptId = attempt.attemptId)
    (houtboxId : ∀ attempt, (g attempt).outboxId = attempt.outboxId)
    (hsecret : ∀ row, row.state = .dispatching → row.SecretKept → (f row).SecretKept)
    (hlink : ∀ row attempt, attempt.attemptId = leaseToken → (g attempt).link = (f row).link) :
    DeliveryStep [] outbox attempts
      (updateWhere (fun row => row.dispatchedBy id leaseToken) f outbox)
      (updateWhere (fun attempt => attempt.openFor id leaseToken) g attempts) where
  inv h := by
    have htoken : ∀ attempt : DeliveryAttempt, attempt.openFor id leaseToken = true →
        attempt.attemptId = leaseToken := by
      intro attempt hopen
      simp only [openFor, Bool.and_eq_true, decide_eq_true_eq] at hopen
      exact hopen.1.1
    have hstate : ∀ row : DeliveryRow, row.dispatchedBy id leaseToken = true →
        row.state = .dispatching := by
      intro row hrow
      simp only [DeliveryRow.dispatchedBy, Bool.and_eq_true, decide_eq_true_eq] at hrow
      exact hrow.1.2
    refine ⟨?_, ?_, ?_, ?_, ?_⟩
    · rw [map_key_updateWhere hid]
      exact h.rowIds
    · rw [map_key_updateWhere hattemptId]
      exact h.attemptIds
    · intro row hrow
      rcases mem_updateWhere.mp hrow with ⟨old, hold, hp, rfl⟩ | ⟨hold, -⟩
      · exact hsecret old (hstate old hp) (h.secret old hold)
      · exact h.secret row hold
    · intro attempt hattempt hne
      rcases mem_updateWhere.mp hattempt with ⟨old, hold, hopen, rfl⟩ | ⟨hold, hopen⟩
      · have holdNe : old.link ≠ none := by
          simp only [openFor, Bool.and_eq_true, decide_eq_true_eq] at hopen
          rw [attempt_link_of_dispatching hopen.2]
          exact Option.some_ne_none _
        obtain ⟨row, hrow, hbound⟩ := h.attemptBound old hold holdNe
        refine ⟨f row, mem_updateWhere.mpr
          (.inl ⟨row, hrow, (hbound.openFor_iff id leaseToken).mp hopen, rfl⟩), ?_⟩
        exact ⟨(houtboxId old).trans (hbound.id.trans (hid row).symm),
          hlink row old (htoken old hopen)⟩
      · obtain ⟨row, hrow, hbound⟩ := h.attemptBound attempt hold hne
        refine ⟨row, mem_updateWhere.mpr (.inr ⟨hrow, ?_⟩), hbound⟩
        rw [← Bool.not_eq_true, ← hbound.openFor_iff id leaseToken, hopen]
        exact Bool.false_ne_true
    · intro row hrow hne
      rcases mem_updateWhere.mp hrow with ⟨old, hold, hp, rfl⟩ | ⟨hold, hp⟩
      · have holdNe : old.link ≠ none := by
          rw [link_of_dispatching (hstate old hp)]
          exact Option.some_ne_none _
        obtain ⟨attempt, hattempt, hbound⟩ := h.rowBound old hold holdNe
        have hopen := (hbound.openFor_iff id leaseToken).mpr hp
        refine ⟨g attempt, mem_updateWhere.mpr (.inl ⟨attempt, hattempt, hopen, rfl⟩), ?_⟩
        exact ⟨(houtboxId attempt).trans (hbound.id.trans (hid old).symm),
          hlink old attempt (htoken attempt hopen)⟩
      · obtain ⟨attempt, hattempt, hbound⟩ := h.rowBound row hold hne
        refine ⟨attempt, mem_updateWhere.mpr (.inr ⟨hattempt, ?_⟩), hbound⟩
        rw [← Bool.not_eq_true, hbound.openFor_iff id leaseToken, hp]
        exact Bool.false_ne_true
  final _ hrow hfinal := by
    refine final_updateWhere (fun other hp => ?_) hrow hfinal
    simp only [DeliveryRow.dispatchedBy, Bool.and_eq_true, decide_eq_true_eq] at hp
    rw [hp.1.2]
    rfl
  ids _ := by rw [map_key_updateWhere hattemptId, List.append_nil]

end MailPortal.Recovery
