import MailPortal.Bulk.Pass
import Mathlib.Data.List.Nodup

/-!
# The Accounts of a Bulk Job

The rows below the cursor are split in two: those that failed, one error each, and the others, each
of which has a delivery of its own command. No delivery is of the command of a row that failed.

Others keep the accounts, and leave a job alone that the alarm works on. So do the calls of a pass
that only read; the module about runs has the calls that write.

Main definitions:

* `Accounted`, `JobInv`, `BulkInv` : the invariant.
* `Later` : deliveries are added only, and a job that is over stays as it is.

Main results:

* `BulkInv.others` : others keep the invariant.
* `Working.others` : others leave the job alone.
-/

namespace MailPortal.Bulk

open Concurrent

variable {platform : BulkPlatform} {s s' : BulkStore} {jobId : String} {job : BulkJob}
  {rows : List BulkRecipient}

/-! ### The invariant -/

/-- The errors of the rows that failed. -/
def rowErrors (rows : List BulkRecipient) (failedRows : List ℕ) : List BulkRowError :=
  failedRows.map fun i => rowError (rows[i]?.getD [])

/-- **The accounts of a job** with some deliveries. -/
structure Accounted (platform : BulkPlatform) (deliveries : List OutboundDelivery) (job : BulkJob)
    (rows : List BulkRecipient) (failedRows : List ℕ) : Prop where
  sorted : failedRows.Pairwise (· < ·)
  below : ∀ i ∈ failedRows, i < job.cursor
  failed : job.failed = failedRows.length
  counted : job.enqueued + job.failed = job.cursor
  within : job.cursor ≤ rows.length
  errors : rowErrors rows failedRows <+: job.errors
  delivered : ∀ i < job.cursor, i ∉ failedRows →
    ∃ delivery ∈ deliveries, Settles platform job rows i delivery
  undelivered : ∀ i ∈ failedRows, ∀ delivery ∈ deliveries, ¬ Settles platform job rows i delivery

/-- What holds of a job in the store. -/
structure JobInv (platform : BulkPlatform) (s : BulkStore) (jobId : String) (job : BulkJob)
    (rows : List BulkRecipient) : Prop where
  id : job.id = jobId
  total : job.total = rows.length
  nonempty : rows ≠ []
  html : bulkPersonalizedHtmlValidationError platform.toBulkHost job.html rows = some none
  accounted : ∃ failedRows, Accounted platform s.deliveries job rows failedRows
  preparing : job.status = .preparing →
    job.cursor = 0 ∧ job.errors = [] ∧ s.rows jobId = some rows
  active : job.active = true →
    s.rows jobId = some rows ∧ job.cursor < rows.length ∧ job.errors.length = job.failed
  done : job.status = .done → job.cursor = rows.length

/-- **The invariant**: keys are unique, queued jobs are active, and every job adds up. -/
structure BulkInv (platform : BulkPlatform) (s : BulkStore) : Prop where
  keys : (s.deliveries.map OutboundDelivery.idempotencyKey).Nodup
  queue : ∀ jobId ∈ s.queue, ∃ job, s.jobs jobId = some job ∧ job.active = true
  jobs : ∀ jobId job, s.jobs jobId = some job →
    ∃ rows, s.admitted jobId = some rows ∧ JobInv platform s jobId job rows

/-- **What never happens to a store**: a delivery is taken away, or a job that is over goes on. -/
structure Later (s s' : BulkStore) : Prop where
  deliveries : s.deliveries <+: s'.deliveries
  terminal : ∀ jobId job, s.jobs jobId = some job → job.terminal = true →
    s'.jobs jobId = some job ∨ s'.jobs jobId = none

theorem Later.refl (s : BulkStore) : Later s s := ⟨List.prefix_refl _, fun _ _ h _ => .inl h⟩

/-! ### Keys of rows -/

theorem digits_no_colon (n : ℕ) : ':' ∉ Nat.toDigits 10 n := by
  intro h
  have hdigit := Nat.isDigit_of_mem_toDigits (by omega) (by omega) h
  exact absurd hdigit (by decide)

theorem append_colon_inj {a a' b b' : List Char} (hb : ':' ∉ b) (hb' : ':' ∉ b')
    (h : a ++ ':' :: b = a' ++ ':' :: b') : a = a' ∧ b = b' := by
  rcases List.append_eq_append_iff.mp h with ⟨rest, ha, hrest⟩ | ⟨rest, ha, hrest⟩
  · cases rest with
    | nil => exact ⟨by simpa using ha.symm, by simpa using hrest⟩
    | cons c rest =>
        obtain ⟨-, hrest⟩ := List.cons.inj hrest
        exact absurd (hrest ▸ List.mem_append_right _ List.mem_cons_self) hb
  · cases rest with
    | nil => exact ⟨by simpa using ha, by simpa using hrest.symm⟩
    | cons c rest =>
        obtain ⟨-, hrest⟩ := List.cons.inj hrest
        exact absurd (hrest ▸ List.mem_append_right _ List.mem_cons_self) hb'

/-- **Rows have keys of their own.** -/
theorem recipientKey_inj {id id' : String} {i i' : ℕ}
    (h : recipientKey id i = recipientKey id' i') :
    id = id' ∧ i = i' := by
  have hkey : "bulk:" ++ id ++ ":" ++ toString i = "bulk:" ++ id' ++ ":" ++ toString i' := h
  have hchars :
      id.toList ++ ':' :: Nat.toDigits 10 i = id'.toList ++ ':' :: Nat.toDigits 10 i' := by
    simpa [String.toList_append] using congrArg String.toList hkey
  obtain ⟨hid, hi⟩ := append_colon_inj (digits_no_colon i) (digits_no_colon i') hchars
  refine ⟨String.toList_inj.mp hid, ?_⟩
  rw [← Nat.ofDigitChars_ten_toDigits (n := i), hi, Nat.ofDigitChars_ten_toDigits]

/-! ### Accounts and deliveries -/

theorem accounted_fresh {deliveries : List OutboundDelivery}
    (h : job.enqueued = 0 ∧ job.failed = 0 ∧ job.cursor = 0) :
    Accounted platform deliveries job rows [] where
  sorted := .nil
  below := nofun
  failed := h.2.1
  counted := by omega
  within := by omega
  errors := List.nil_prefix
  delivered i hi := by omega
  undelivered := nofun

/-- Deliveries that are none of the rows below the cursor change nothing. -/
theorem Accounted.mono {deliveries deliveries' : List OutboundDelivery} {failedRows : List ℕ}
    (h : Accounted platform deliveries job rows failedRows)
    (hold : ∀ delivery ∈ deliveries, delivery ∈ deliveries')
    (hnew : ∀ delivery ∈ deliveries', delivery ∈ deliveries ∨
      ∀ i < job.cursor, ¬ Settles platform job rows i delivery) :
    Accounted platform deliveries' job rows failedRows where
  sorted := h.sorted
  below := h.below
  failed := h.failed
  counted := h.counted
  within := h.within
  errors := h.errors
  delivered i hi hnot := by
    obtain ⟨delivery, hmem, hsettles⟩ := h.delivered i hi hnot
    exact ⟨delivery, hold delivery hmem, hsettles⟩
  undelivered i hi delivery hmem := by
    rcases hnew delivery hmem with hmem | hnot
    · exact h.undelivered i hi delivery hmem
    · exact hnot i (h.below i hi)

section

variable (h : JobInv platform s jobId job rows) (hrows : s'.rows jobId = s.rows jobId)
include h hrows

theorem JobInv.mono (hold : ∀ delivery ∈ s.deliveries, delivery ∈ s'.deliveries)
    (hnew : ∀ delivery ∈ s'.deliveries, delivery ∈ s.deliveries ∨
      ∀ i < job.cursor, ¬ Settles platform job rows i delivery) :
    JobInv platform s' jobId job rows where
  id := h.id
  total := h.total
  nonempty := h.nonempty
  html := h.html
  accounted := by
    obtain ⟨failedRows, haccounted⟩ := h.accounted
    exact ⟨failedRows, haccounted.mono hold hnew⟩
  preparing hstatus := by
    rw [hrows]
    exact h.preparing hstatus
  active hactive := by
    rw [hrows]
    exact h.active hactive
  done := h.done

theorem JobInv.of_eq (hdeliveries : s'.deliveries = s.deliveries) :
    JobInv platform s' jobId job rows :=
  h.mono hrows (fun _ hmem => hdeliveries ▸ hmem) fun _ hmem => .inl (hdeliveries ▸ hmem)

end

/-- In a job that is being prepared nothing has been counted. -/
theorem JobInv.fresh (h : JobInv platform s jobId job rows) (hstatus : job.status = .preparing) :
    job.enqueued = 0 ∧ job.failed = 0 ∧ job.cursor = 0 := by
  obtain ⟨failedRows, haccounted⟩ := h.accounted
  have hcounted := haccounted.counted
  have hcursor := (h.preparing hstatus).1
  omega

/-- A write of one job keeps the invariant when that job does. -/
theorem BulkInv.set (h : BulkInv platform s) {stored : Option BulkJob}
    (hjobs : s'.jobs = Function.update s.jobs jobId stored)
    (hrows : ∀ id, id ≠ jobId → s'.rows id = s.rows id)
    (hadmitted : ∀ id, id ≠ jobId → s'.admitted id = s.admitted id)
    (hdeliveries : s'.deliveries = s.deliveries)
    (hqueue : ∀ id ∈ s'.queue, id ≠ jobId → id ∈ s.queue)
    (hmember : jobId ∈ s'.queue → ∃ job, stored = some job ∧ job.active = true)
    (hjob : ∀ job, stored = some job →
      ∃ rows, s'.admitted jobId = some rows ∧ JobInv platform s' jobId job rows) :
    BulkInv platform s' where
  keys := by
    rw [hdeliveries]
    exact h.keys
  queue id hid := by
    rw [hjobs]
    by_cases hmine : id = jobId
    · subst hmine
      rw [Function.update_self]
      exact hmember hid
    · rw [Function.update_of_ne hmine]
      exact h.queue id (hqueue id hid hmine)
  jobs id job hstored := by
    rw [hjobs] at hstored
    by_cases hmine : id = jobId
    · subst hmine
      rw [Function.update_self] at hstored
      exact hjob job hstored
    · rw [Function.update_of_ne hmine] at hstored
      obtain ⟨rows, hrows', hinv⟩ := h.jobs id job hstored
      exact ⟨rows, (hadmitted id hmine).trans hrows', hinv.of_eq (hrows id hmine) hdeliveries⟩

/-- A delivery under a free key keeps the invariant when it is of no row that was counted. -/
theorem BulkInv.deliver (h : BulkInv platform s) {delivery : OutboundDelivery}
    (hfree : s.delivery delivery.idempotencyKey = none)
    (hother : ∀ jobId job rows, s.jobs jobId = some job → s.admitted jobId = some rows →
      ∀ i < job.cursor, ¬ Settles platform job rows i delivery) :
    BulkInv platform { s with deliveries := s.deliveries ++ [delivery] } where
  keys := by
    rw [List.map_append, List.map_singleton]
    refine List.nodup_append.mpr ⟨h.keys, List.nodup_singleton _, fun key hkey key' hkey' heq => ?_⟩
    obtain ⟨existing, hexisting, rfl⟩ := List.mem_map.mp hkey
    obtain rfl := List.mem_singleton.mp hkey'
    exact List.find?_eq_none.mp hfree existing hexisting (decide_eq_true heq)
  queue := h.queue
  jobs jobId job hjob := by
    obtain ⟨rows, hrows, hinv⟩ := h.jobs jobId job hjob
    refine ⟨rows, hrows, hinv.mono rfl (fun _ hmem => List.mem_append_left _ hmem) fun d hd => ?_⟩
    refine (List.mem_append.mp hd).imp_right fun hnew => ?_
    rw [List.mem_singleton.mp hnew]
    exact hother jobId job rows hjob hrows

/-- The other tables do not matter. -/
theorem BulkInv.of_eq (h : BulkInv platform s) (hjobs : s'.jobs = s.jobs) (hrows : s'.rows = s.rows)
    (hadmitted : s'.admitted = s.admitted) (hdeliveries : s'.deliveries = s.deliveries)
    (hqueue : s'.queue = s.queue) : BulkInv platform s' where
  keys := by
    rw [hdeliveries]
    exact h.keys
  queue := by
    rw [hjobs, hqueue]
    exact h.queue
  jobs := by
    rw [hjobs, hadmitted]
    intro jobId job hjob
    obtain ⟨rows, hadmits, hinv⟩ := h.jobs jobId job hjob
    exact ⟨rows, hadmits, hinv.of_eq (by rw [hrows]) hdeliveries⟩

/-! ### Others -/

theorem mem_ensureBulkQueueMembership {queue : List String} {id : String}
    (h : id ∈ ensureBulkQueueMembership queue jobId) : id ∈ queue ∨ id = jobId := by
  rw [ensureBulkQueueMembership] at h
  split at h
  · exact .inl h
  · exact (List.mem_append.mp h).imp_right List.mem_singleton.mp

/-- A job that has not been taken up, or is no longer, is not in the queue. -/
theorem BulkInv.not_queued (h : BulkInv platform s) (hjob : s.jobs jobId = some job)
    (hactive : job.active = false) : jobId ∉ s.queue := by
  intro hmem
  obtain ⟨job', hjob', hactive'⟩ := h.queue jobId hmem
  rw [Option.some.inj (hjob.symm.trans hjob'), hactive'] at hactive
  cases hactive

theorem active_of_preparing (h : job.status = .preparing) : job.active = false := by
  simp [BulkJob.active, h]

theorem active_of_terminal (h : job.terminal = true) : job.active = false := by
  cases hstatus : job.status <;> simp [BulkJob.terminal, BulkJob.active, hstatus] at h ⊢

theorem BulkInv.unknown (h : BulkInv platform s) (hnew : s.admitted jobId = none) :
    s.jobs jobId = none := by
  cases hjob : s.jobs jobId with
  | none => rfl
  | some job =>
      obtain ⟨rows, hrows, -⟩ := h.jobs jobId job hjob
      rw [hnew] at hrows
      cases hrows

theorem jobInv_admitted (hadmits : Admits platform jobId job rows)
    (hrows : s.rows jobId = some rows) : JobInv platform s jobId job rows where
  id := hadmits.id
  total := hadmits.total
  nonempty := hadmits.nonempty
  html := hadmits.html
  accounted :=
    ⟨[], accounted_fresh ⟨hadmits.counters.1, hadmits.counters.2.1, hadmits.counters.2.2.1⟩⟩
  preparing _ := ⟨hadmits.counters.2.2.1, hadmits.counters.2.2.2, hrows⟩
  active hactive := by
    rw [active_of_preparing hadmits.status] at hactive
    cases hactive
  done hdone := by
    rw [hadmits.status] at hdone
    cases hdone

section

variable (h : JobInv platform s jobId job rows) (hstatus : job.status = .preparing)
include h hstatus

theorem JobInv.prepared (attachments : List BulkAttachment) (now : ℤ) (hrows : s'.rows = s.rows) :
    JobInv platform s' jobId { job with
      status := .queued, updatedAt := now, nextEnqueueAt := some (now + 100), attachments } rows
    where
  id := h.id
  total := h.total
  nonempty := h.nonempty
  html := h.html
  accounted := ⟨[], accounted_fresh (h.fresh hstatus)⟩
  preparing hpreparing := by cases hpreparing
  active _ := by
    obtain ⟨hcursor, herrors, hrows'⟩ := h.preparing hstatus
    refine ⟨hrows ▸ hrows', ?_, ?_⟩
    · exact hcursor ▸ List.length_pos_iff.mpr h.nonempty
    · rw [herrors, (h.fresh hstatus).2.1]
      rfl
  done hdone := by cases hdone

theorem JobInv.givenUp (error : String) (now : ℤ) :
    JobInv platform s' jobId { job with
      status := .failed, errors := [⟨"", error⟩], updatedAt := now } rows where
  id := h.id
  total := h.total
  nonempty := h.nonempty
  html := h.html
  accounted := ⟨[], accounted_fresh (h.fresh hstatus)⟩
  preparing hpreparing := by cases hpreparing
  active hactive := by cases hactive
  done hdone := by cases hdone

end

/-- **Others keep the invariant.** -/
theorem BulkInv.others (h : BulkInv platform s) (hothers : Others platform s s') :
    BulkInv platform s' := by
  cases hothers with
  | admitted jobId job rows hnew hadmits =>
      have hunknown := h.unknown hnew
      refine h.set rfl (fun _ hne => Function.update_of_ne hne _ _)
        (fun _ hne => Function.update_of_ne hne _ _) rfl (fun _ hid _ => hid) (fun hmem => ?_) ?_
      · obtain ⟨_, hjob, -⟩ := h.queue jobId hmem
        rw [hunknown] at hjob
        cases hjob
      · rintro _ ⟨rfl⟩
        exact ⟨rows, Function.update_self .., jobInv_admitted hadmits (Function.update_self ..)⟩
  | prepared jobId job attachments now hjob hstatus =>
      obtain ⟨rows, hrows, hinv⟩ := h.jobs jobId job hjob
      refine h.set rfl (fun _ _ => rfl) (fun _ _ => rfl) rfl
        (fun _ hid hne => (mem_ensureBulkQueueMembership hid).resolve_right hne)
        (fun _ => ⟨_, rfl, rfl⟩) ?_
      rintro _ ⟨rfl⟩
      exact ⟨rows, hrows, hinv.prepared hstatus attachments now rfl⟩
  | givenUp jobId job error now hjob hstatus =>
      obtain ⟨rows, hrows, hinv⟩ := h.jobs jobId job hjob
      refine h.set rfl (fun _ hne => Function.update_of_ne hne _ _) (fun _ _ => rfl) rfl
        (fun _ hid _ => hid) (fun hmem => ?_) ?_
      · exact absurd hmem (h.not_queued hjob (active_of_preparing hstatus))
      · rintro _ ⟨rfl⟩
        exact ⟨rows, hrows, hinv.givenUp hstatus error now⟩
  | requeued jobId job hjob hactive =>
      refine h.set (Function.update_eq_self jobId s.jobs).symm (fun _ _ => rfl) (fun _ _ => rfl) rfl
        (fun _ hid hne => (mem_ensureBulkQueueMembership hid).resolve_right hne)
        (fun _ => ⟨job, hjob, hactive⟩) fun job hjob => ?_
      obtain ⟨rows, hrows, hinv⟩ := h.jobs jobId job hjob
      exact ⟨rows, hrows, hinv.of_eq rfl rfl⟩
  | pruned jobId job hjob hterminal =>
      refine h.set rfl (fun _ hne => Function.update_of_ne hne _ _) (fun _ _ => rfl) rfl
        (fun _ hid _ => hid) (fun hmem => ?_) fun _ hnone => by cases hnone
      exact absurd hmem (h.not_queued hjob (active_of_terminal hterminal))
  | preparationDropped jobId cursor => exact h.of_eq rfl rfl rfl rfl rfl
  | enqueued delivery hfree hother =>
      exact h.deliver hfree fun jobId job rows hjob hrows i _ => hother jobId job rows hjob hrows i

/-- A job that is over is neither admitted nor prepared again. -/
theorem Later.others (h : BulkInv platform s) (hothers : Others platform s s') : Later s s' := by
  have hset : ∀ (jobId : String) (stored : Option BulkJob),
      (∀ job, s.jobs jobId = some job → job.terminal = true → stored = none) →
        ∀ id job, s.jobs id = some job → job.terminal = true →
          Function.update s.jobs jobId stored id = some job ∨
            Function.update s.jobs jobId stored id = none := by
    intro jobId stored hnone id job hjob hterminal
    by_cases hmine : id = jobId
    · subst hmine
      rw [Function.update_self]
      exact .inr (hnone job hjob hterminal)
    · rw [Function.update_of_ne hmine]
      exact .inl hjob
  have hpreparing : ∀ {jobId : String} {job : BulkJob}, s.jobs jobId = some job →
      job.status = .preparing → ∀ job', s.jobs jobId = some job' →
        job'.terminal = true → False := by
    intro jobId job hjob hstatus job' hjob' hterminal
    rw [← Option.some.inj (hjob.symm.trans hjob')] at hterminal
    simp [BulkJob.terminal, hstatus] at hterminal
  cases hothers with
  | admitted jobId job rows hnew hadmits =>
      refine ⟨List.prefix_refl _, hset jobId _ fun job' hjob' _ => ?_⟩
      rw [h.unknown hnew] at hjob'
      cases hjob'
  | prepared jobId job attachments now hjob hstatus =>
      exact ⟨List.prefix_refl _, hset jobId _ fun job' hjob' hterminal =>
        (hpreparing hjob hstatus job' hjob' hterminal).elim⟩
  | givenUp jobId job error now hjob hstatus =>
      exact ⟨List.prefix_refl _, hset jobId _ fun job' hjob' hterminal =>
        (hpreparing hjob hstatus job' hjob' hterminal).elim⟩
  | requeued => exact ⟨List.prefix_refl _, fun _ _ hjob _ => .inl hjob⟩
  | pruned jobId job hjob hterminal => exact ⟨List.prefix_refl _, hset jobId _ fun _ _ _ => rfl⟩
  | preparationDropped => exact ⟨List.prefix_refl _, fun _ _ hjob _ => .inl hjob⟩
  | enqueued => exact ⟨List.prefix_append _ _, fun _ _ hjob _ => .inl hjob⟩

/-! ### What a pass knows -/

/-- The job that a pass works on. -/
structure Working (jobId : String) (job : BulkJob) (rows : List BulkRecipient) (s : BulkStore) :
    Prop where
  stored : s.jobs jobId = some job
  active : job.active = true
  admitted : s.admitted jobId = some rows

/-- The row has its delivery. -/
def Delivered (platform : BulkPlatform) (job : BulkJob) (rows : List BulkRecipient) (i : ℕ)
    (s : BulkStore) : Prop := ∃ delivery ∈ s.deliveries, Settles platform job rows i delivery

/-- No delivery is of the row. -/
def Undelivered (platform : BulkPlatform) (job : BulkJob) (rows : List BulkRecipient) (i : ℕ)
    (s : BulkStore) : Prop := ∀ delivery ∈ s.deliveries, ¬ Settles platform job rows i delivery

/-- **Others leave the job alone.** -/
theorem Working.others (h : Working jobId job rows s) (hothers : Others platform s s') :
    Working jobId job rows s' := by
  have hpreparing : ∀ {id : String} {job' : BulkJob}, s.jobs id = some job' →
      job'.active = false → jobId ≠ id := by
    rintro id job' hjob' hactive rfl
    rw [← Option.some.inj (h.stored.symm.trans hjob'), h.active] at hactive
    cases hactive
  cases hothers with
  | admitted id job' rows' hnew hadmits =>
      have hne : jobId ≠ id := by
        rintro rfl
        cases hnew.symm.trans h.admitted
      exact ⟨(Function.update_of_ne hne ..).trans h.stored, h.active,
        (Function.update_of_ne hne ..).trans h.admitted⟩
  | prepared id job' attachments now hjob' hstatus =>
      have hne := hpreparing hjob' (active_of_preparing hstatus)
      exact ⟨(Function.update_of_ne hne ..).trans h.stored, h.active, h.admitted⟩
  | givenUp id job' error now hjob' hstatus =>
      have hne := hpreparing hjob' (active_of_preparing hstatus)
      exact ⟨(Function.update_of_ne hne ..).trans h.stored, h.active, h.admitted⟩
  | requeued => exact ⟨h.stored, h.active, h.admitted⟩
  | pruned id job' hjob' hterminal =>
      have hne := hpreparing hjob' (active_of_terminal hterminal)
      exact ⟨(Function.update_of_ne hne ..).trans h.stored, h.active, h.admitted⟩
  | preparationDropped => exact ⟨h.stored, h.active, h.admitted⟩
  | enqueued => exact ⟨h.stored, h.active, h.admitted⟩

/-- Others enqueue other commands. -/
theorem Undelivered.others {i : ℕ} (hworking : Working jobId job rows s)
    (h : Undelivered platform job rows i s) (hothers : Others platform s s') :
    Undelivered platform job rows i s' := by
  cases hothers with
  | enqueued delivery hfree hother =>
      intro delivery' hmem
      rcases List.mem_append.mp hmem with hold | hnew
      · exact h delivery' hold
      · rw [List.mem_singleton.mp hnew]
        exact hother jobId job rows hworking.stored hworking.admitted i
  | _ => exact h

end MailPortal.Bulk
