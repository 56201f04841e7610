import MailPortal.Auth.LoginThrottle

/-!
# The Invariant of the Login Throttle

In every reachable state the failures that a bucket counts in its window and the leases it holds
stay within its limit. An attempt has a lease in both of its buckets or in neither, since both
are inserted by one statement and end at one time. A locked bucket has no leases: the failure that
locks it uses up its last one, and nothing is admitted while the lock lasts. So no failure finds
its bucket locked, and each one counts.

Main results:

* `finishFailure_of_held` : a report under stored leases is one failure in either bucket.
* `ThrottleInv.admitBatch` : an admission inserts both leases or none.
* `throttleInv_step`, `throttleInv_run` : the invariant holds in every reachable state.
-/

namespace MailPortal.Auth

open Runs ThrottleTables Table

variable {times : ThrottleTimes} {maxFailures : String → ℕ}
variable {windowMs lockUntil : ℤ} {t t' : ThrottleTables} {rows : List LoginThrottle}

/-! ### Failures in the window -/

/-- The failures of a row that its window counts: those of a window that is still open. -/
def failuresIn (windowMs now : ℤ) : Option LoginThrottle → ℕ
  | none => 0
  | some row => if now < row.windowStartedAt + windowMs then row.failureCount else 0

/-- The guard of the admission counts the failures of the open window. -/
theorem windowFailures_eq (windowMs now : ℤ) (row : Option LoginThrottle) :
    windowFailures (now - windowMs) row = failuresIn windowMs now row := by
  cases row with
  | none => simp [windowFailures, failuresIn]
  | some row =>
      simp only [windowFailures, failuresIn, Option.map_some, Option.getD_some]
      by_cases h : row.windowStartedAt ≤ now - windowMs
      · rw [if_pos h, if_neg (by omega)]
      · rw [if_neg h, if_pos (by omega)]

/-- As the clock goes on a window can only close. -/
theorem failuresIn_antitone {now now' : ℤ} (h : now ≤ now') (row : Option LoginThrottle) :
    failuresIn windowMs now' row ≤ failuresIn windowMs now row := by
  cases row with
  | none => exact le_rfl
  | some row =>
      simp only [failuresIn]
      split
      · rw [if_pos (by omega)]
      · exact Nat.zero_le _

/-! ### One failure of one bucket -/

section

variable (failure : FailureTimes) (lease : AttemptLease) (row : Option LoginThrottle)
include failure lease row

theorem failedRow_key : (failedRow failure lease row).throttleKey = lease.throttleKey := by
  cases row <;> rfl

theorem failedRow_updatedAt : (failedRow failure lease row).updatedAt = failure.now := by
  cases row <;> rfl

end

/-- A failure adds one to the failures of the open window. -/
theorem failuresIn_failedRow {now : ℤ} (hpos : 0 < windowMs) (lease : AttemptLease)
    (row : Option LoginThrottle) :
    failuresIn windowMs now (some (failedRow ⟨now, now - windowMs, lockUntil⟩ lease row)) =
      failuresIn windowMs now row + 1 := by
  cases row with
  | none =>
      simp only [failuresIn, failedRow]
      rw [if_pos (by omega)]
  | some row =>
      simp only [failuresIn, failedRow]
      by_cases h : row.windowStartedAt ≤ now - windowMs
      · rw [if_pos h, if_pos h, if_pos (by omega), if_neg (by omega)]
      · rw [if_neg h, if_neg h, if_pos (by omega), if_pos (by omega)]

/-- A failure locks a bucket that was not locked just if it reaches the limit. -/
theorem failedRow_lockedUntil {now : ℤ} (lease : AttemptLease) {row : Option LoginThrottle}
    (hfree : ∀ old, row = some old → old.lockedUntil ≤ now) :
    (failedRow ⟨now, now - windowMs, lockUntil⟩ lease row).lockedUntil =
      if lease.maxFailures ≤ failuresIn windowMs now row + 1 then lockUntil else 0 := by
  cases row with
  | none => rfl
  | some row =>
      have hunlocked : ¬now < row.lockedUntil := not_lt.mpr (hfree row rfl)
      have hcount : (if row.windowStartedAt ≤ now - windowMs then 1 else row.failureCount + 1) =
          failuresIn windowMs now (some row) + 1 := by
        simp only [failuresIn]
        by_cases h : row.windowStartedAt ≤ now - windowMs
        · rw [if_pos h, if_neg (by omega)]
        · rw [if_neg h, if_pos (by omega)]
      simp only [failedRow, if_neg hunlocked, hcount]

/-! ### The leases of an attempt -/

/-- The lease of an attempt in a bucket, with its times. -/
def leaseFor (maxFailures : String → ℕ) (attemptId key : String) (acquiredAt expiresAt : ℤ) :
    AttemptLease :=
  ⟨attemptId, key, maxFailures key, acquiredAt, expiresAt⟩

/-- The two leases of an attempt. They are taken and end together. -/
def Held (maxFailures : String → ℕ) (t : ThrottleTables) (attemptId account ip : String) : Prop :=
  ∃ acquiredAt expiresAt, t.leasesOf attemptId =
    [leaseFor maxFailures attemptId account acquiredAt expiresAt,
      leaseFor maxFailures attemptId ip acquiredAt expiresAt]

theorem mem_leasesOf {attemptId : String} {lease : AttemptLease} :
    lease ∈ t.leasesOf attemptId ↔ lease ∈ t.leases ∧ lease.attemptId = attemptId := by
  simp [leasesOf]

theorem leasesOf_deleteWhere (t : ThrottleTables) (p : AttemptLease → Bool) (attemptId : String)
    (throttles : List LoginThrottle) :
    leasesOf ⟨throttles, deleteWhere p t.leases⟩ attemptId =
      (t.leasesOf attemptId).filter fun lease => !p lease := by
  simp only [leasesOf, deleteWhere, List.filter_filter]
  exact List.filter_congr fun lease _ => Bool.and_comm _ _

/-- Leases are counted apart for one attempt and for the others. -/
theorem leaseCount_split (t : ThrottleTables) (attemptId key : String) :
    (deleteLeasesOf attemptId t).leaseCount key +
      (t.leasesOf attemptId).countP (fun lease => lease.throttleKey = key) =
        t.leaseCount key := by
  have hsplit := List.countP_eq_countP_filter_add t.leases
    (fun lease => decide (lease.throttleKey = key))
    (fun lease => decide (lease.attemptId = attemptId))
  simp only [leaseCount, deleteLeasesOf, deleteWhere, leasesOf]
  omega

theorem leaseCount_deleteWhere_le (t : ThrottleTables) (p : AttemptLease → Bool) (key : String)
    (throttles : List LoginThrottle) :
    leaseCount ⟨throttles, deleteWhere p t.leases⟩ key ≤ t.leaseCount key :=
  List.filter_sublist.countP_le

/-- An attempt without leases reports to nobody. -/
theorem finishFailure_of_unheld {attemptId : String} (h : t.leasesOf attemptId = [])
    (now windowMs lockMs : ℤ) : finishFailure attemptId now windowMs lockMs t = t := by
  have hothers : deleteWhere (fun lease => decide (lease.attemptId = attemptId)) t.leases =
      t.leases := by
    refine List.filter_eq_self.mpr fun lease hlease => ?_
    have hnot : lease ∉ t.leasesOf attemptId := by
      rw [h]
      exact List.not_mem_nil
    have hne : lease.attemptId ≠ attemptId := fun he => hnot (mem_leasesOf.mpr ⟨hlease, he⟩)
    simp [hne]
  simp only [finishFailure, deleteLeasesOf, h, List.foldl_nil, hothers]

theorem throttle_writeFailure (failure : FailureTimes) (rows : List LoginThrottle)
    (lease : AttemptLease) (key : String) :
    lookup LoginThrottle.throttleKey key (writeFailure failure rows lease) =
      if lease.throttleKey = key then
        some (failedRow failure lease
          (lookup LoginThrottle.throttleKey lease.throttleKey rows))
      else lookup LoginThrottle.throttleKey key rows :=
  lookup_upsert (failedRow_key failure lease) key rows

/-- What a report does for an attempt that holds its leases: one failure in either bucket, under
the limit of the bucket, and no more. -/
structure FailureCounted (times : ThrottleTimes) (maxFailures : String → ℕ) (account ip : String)
    (now : ℤ) (t t' : ThrottleTables) : Prop where
  written : ∀ key, key = account ∨ key = ip → ∃ lease : AttemptLease,
    lease.maxFailures = maxFailures key ∧
    t'.throttle key = some (failedRow ⟨now, now - times.windowMs, now + times.lockMs⟩ lease
      (t.throttle key))
  returned : ∀ key, key = account ∨ key = ip → t'.leaseCount key + 1 = t.leaseCount key
  others : ∀ key, key ≠ account → key ≠ ip → t'.throttle key = t.throttle key
  sameLeases : ∀ key, key ≠ account → key ≠ ip → t'.leaseCount key = t.leaseCount key

variable {attemptId account ip : String}

theorem finishFailure_of_held (times : ThrottleTimes) (hne : account ≠ ip)
    (h : Held maxFailures t attemptId account ip) (now : ℤ) :
    FailureCounted times maxFailures account ip now t
      (finishFailure attemptId now times.windowMs times.lockMs t) := by
  obtain ⟨acquiredAt, expiresAt, hleases⟩ := h
  have hsplit := leaseCount_split t attemptId
  rw [hleases] at hsplit
  have hlookup : ∀ key, (finishFailure attemptId now times.windowMs times.lockMs t).throttle key =
      if ip = key then
        some (failedRow ⟨now, now - times.windowMs, now + times.lockMs⟩
          (leaseFor maxFailures attemptId ip acquiredAt expiresAt) (t.throttle ip))
      else if account = key then
        some (failedRow ⟨now, now - times.windowMs, now + times.lockMs⟩
          (leaseFor maxFailures attemptId account acquiredAt expiresAt) (t.throttle account))
      else t.throttle key := by
    intro key
    simp only [throttle, finishFailure, deleteLeasesOf, hleases, List.foldl_cons,
      List.foldl_nil, throttle_writeFailure, leaseFor, if_neg hne]
  have hcount : ∀ key, (finishFailure attemptId now times.windowMs times.lockMs t).leaseCount key =
      (deleteLeasesOf attemptId t).leaseCount key := fun key => rfl
  refine ⟨?_, ?_, ?_, ?_⟩
  · rintro key (rfl | rfl)
    · exact ⟨_, rfl, by rw [hlookup, if_neg (Ne.symm hne), if_pos rfl]⟩
    · exact ⟨_, rfl, by rw [hlookup, if_pos rfl]⟩
  · rintro key (rfl | rfl)
    · have hkey := hsplit key
      simp only [leaseFor, List.countP_cons, List.countP_nil, decide_eq_true_eq,
        if_neg (Ne.symm hne), if_pos] at hkey
      rw [hcount]
      omega
    · have hkey := hsplit key
      simp only [leaseFor, List.countP_cons, List.countP_nil, decide_eq_true_eq, if_neg hne,
        if_pos] at hkey
      rw [hcount]
      omega
  · intro key haccount hip
    rw [hlookup, if_neg (Ne.symm hip), if_neg (Ne.symm haccount)]
  · intro key haccount hip
    have hkey := hsplit key
    simp only [leaseFor, List.countP_cons, List.countP_nil, decide_eq_true_eq,
      if_neg (Ne.symm haccount), if_neg (Ne.symm hip)] at hkey
    rw [hcount]
    omega

/-! ### The invariant -/

/-- What holds between two calls. -/
structure ThrottleInv (times : ThrottleTimes) (maxFailures : String → ℕ) (s : ThrottleSystem) :
    Prop where
  throttleKeys : (s.tables.throttles.map LoginThrottle.throttleKey).Nodup
  leaseKeys : (s.tables.leases.map AttemptLease.key).Nodup
  attempts : ∀ lease ∈ s.tables.leases, lease.attemptId ∈ s.attempts.map Prod.fst
  distinct : ∀ attemptId account ip, (attemptId, account, ip) ∈ s.attempts → account ≠ ip
  held : ∀ attemptId account ip, (attemptId, account, ip) ∈ s.attempts →
    s.tables.leasesOf attemptId = [] ∨ Held maxFailures s.tables attemptId account ip
  bounded : ∀ key now, s.clock ≤ now →
    failuresIn times.windowMs now (s.tables.throttle key) + s.tables.leaseCount key ≤
      maxFailures key
  locked : ∀ key row, s.tables.throttle key = some row → s.clock < row.lockedUntil →
    s.tables.leaseCount key = 0
  lockTime : ∀ key row, s.tables.throttle key = some row →
    row.lockedUntil = 0 ∨ row.lockedUntil ≤ row.updatedAt + times.lockMs
  begun : s.clock < 0 → s.tables = ⟨[], []⟩

theorem throttleInv_start (clock : ℤ) : ThrottleInv times maxFailures (.start clock) := by
  refine ⟨List.nodup_nil, List.nodup_nil, ?_, ?_, ?_, ?_, ?_, ?_, ?_⟩
  · intro lease hlease
    cases hlease
  · intro attemptId account ip hattempt
    cases hattempt
  · intro attemptId account ip hattempt
    cases hattempt
  · intro key now _
    exact Nat.zero_le _
  · intro key row hrow
    cases hrow
  · intro key row hrow
    cases hrow
  · intro _
    rfl

variable {s : ThrottleSystem} {now : ℤ}

section

variable (h : ThrottleInv times maxFailures s)
include h

/-- Leases may go away, if those of an attempt go together. -/
theorem ThrottleInv.deleteLeases (hclock : s.clock ≤ now) {p : AttemptLease → Bool}
    (hp : ∀ attemptId key key' acquiredAt expiresAt,
      p (leaseFor maxFailures attemptId key acquiredAt expiresAt) =
        p (leaseFor maxFailures attemptId key' acquiredAt expiresAt)) :
    ThrottleInv times maxFailures
      ⟨⟨s.tables.throttles, deleteWhere p s.tables.leases⟩, now, s.attempts⟩ where
  throttleKeys := h.throttleKeys
  leaseKeys := nodup_deleteWhere h.leaseKeys
  attempts lease hlease := h.attempts lease (mem_deleteWhere.mp hlease).1
  distinct := h.distinct
  held attemptId account ip hattempt := by
    rw [leasesOf_deleteWhere]
    rcases h.held attemptId account ip hattempt with hnone | ⟨acquiredAt, expiresAt, hboth⟩
    · exact .inl (by rw [hnone]; rfl)
    · have hsame := hp attemptId account ip acquiredAt expiresAt
      cases hkeep : p (leaseFor maxFailures attemptId account acquiredAt expiresAt) with
      | true =>
          rw [hkeep] at hsame
          exact .inl (by simp [hboth, hkeep, ← hsame])
      | false =>
          rw [hkeep] at hsame
          refine .inr ⟨acquiredAt, expiresAt, ?_⟩
          rw [leasesOf_deleteWhere]
          simp [hboth, hkeep, ← hsame]
  bounded key later hlater :=
    le_trans (Nat.add_le_add_left (leaseCount_deleteWhere_le s.tables p key _) _)
      (h.bounded key later (le_trans hclock hlater))
  locked key row hrow hlocked := by
    have hzero := h.locked key row hrow (lt_of_le_of_lt hclock hlocked)
    have hle := leaseCount_deleteWhere_le s.tables p key s.tables.throttles
    exact Nat.le_zero.mp (hzero ▸ hle)
  lockTime := h.lockTime
  begun hneg := by
    have hempty := h.begun (lt_of_le_of_lt hclock hneg)
    simp only [hempty]
    rfl

/-- Rows of the throttle may go away. -/
theorem ThrottleInv.deleteThrottles (q : LoginThrottle → Bool) :
    ThrottleInv times maxFailures
      ⟨⟨deleteWhere q s.tables.throttles, s.tables.leases⟩, s.clock, s.attempts⟩ := by
  have hrows : ∀ key row, throttle
      ⟨deleteWhere q s.tables.throttles, s.tables.leases⟩ key = some row →
        s.tables.throttle key = some row := by
    intro key row hrow
    rw [throttle, lookup_deleteWhere h.throttleKeys] at hrow
    exact (Option.filter_eq_some_iff.mp hrow).1
  refine ⟨nodup_deleteWhere h.throttleKeys, h.leaseKeys, h.attempts, h.distinct, h.held,
    ?_, ?_, ?_, ?_⟩
  · intro key later hlater
    have hbound := h.bounded key later hlater
    cases hrow : throttle
        ⟨deleteWhere q s.tables.throttles, s.tables.leases⟩ key with
    | none => exact le_trans (Nat.add_le_add_right (Nat.zero_le _) _) hbound
    | some row =>
        rw [hrows key row hrow] at hbound
        exact hbound
  · intro key row hrow
    exact h.locked key row (hrows key row hrow)
  · intro key row hrow
    exact h.lockTime key row (hrows key row hrow)
  · intro hneg
    simp only [h.begun hneg]
    rfl

/-- The clock may go on. -/
theorem ThrottleInv.later (hclock : s.clock ≤ now) :
    ThrottleInv times maxFailures ⟨s.tables, now, s.attempts⟩ := by
  have hall : deleteWhere (fun _ => false) s.tables.leases = s.tables.leases :=
    List.filter_eq_self.mpr fun _ _ => rfl
  have hlater := h.deleteLeases hclock (p := fun _ => false) fun _ _ _ _ _ => rfl
  rwa [hall] at hlater

/-- An attempt has no leases or both. -/
theorem ThrottleInv.held_or_none (attemptId : String) :
    s.tables.leasesOf attemptId = [] ∨
      ∃ account ip, (attemptId, account, ip) ∈ s.attempts ∧
        Held maxFailures s.tables attemptId account ip := by
  by_cases hmember : attemptId ∈ s.attempts.map Prod.fst
  · obtain ⟨⟨_, account, ip⟩, hattempt, rfl⟩ := List.mem_map.mp hmember
    rcases h.held _ account ip hattempt with hnone | hboth
    · exact .inl hnone
    · exact .inr ⟨account, ip, hattempt, hboth⟩
  · refine .inl (List.eq_nil_iff_forall_not_mem.mpr fun lease hlease => hmember ?_)
    obtain ⟨hmem, hid⟩ := mem_leasesOf.mp hlease
    exact hid ▸ h.attempts lease hmem

/-- A bucket with a lease is not locked. -/
theorem ThrottleInv.unlocked (hclock : s.clock ≤ now) (key : String)
    (hlease : 0 < s.tables.leaseCount key) :
    ∀ row, s.tables.throttle key = some row → row.lockedUntil ≤ now := by
  intro row hrow
  by_contra hlocked
  have hzero := h.locked key row hrow (by omega)
  omega

/-- A bucket with a lease in it was written after the clock began. -/
theorem ThrottleInv.clock_nonneg (key : String) (hlease : 0 < s.tables.leaseCount key) :
    0 ≤ s.clock := by
  by_contra hneg
  rw [h.begun (by omega)] at hlease
  exact absurd hlease (Nat.lt_irrefl 0)

/-- A bucket after a failure: one more failure in its window, and a lock from the failure on if
that reaches its limit. -/
theorem ThrottleInv.failed_row (hclock : s.clock ≤ now) {account ip key : String}
    (hcounted : FailureCounted times maxFailures account ip now s.tables t')
    (hkey : key = account ∨ key = ip) :
    ∃ row, t'.throttle key = some row ∧ row.updatedAt = now ∧
      failuresIn times.windowMs now (some row) =
        failuresIn times.windowMs now (s.tables.throttle key) + 1 ∧
      row.lockedUntil =
        if maxFailures key ≤ failuresIn times.windowMs now (some row) then now + times.lockMs
        else 0 := by
  obtain ⟨lease, hlimit, hwritten⟩ := hcounted.written key hkey
  have hreturned := hcounted.returned key hkey
  have hfree := h.unlocked hclock key (by omega)
  refine ⟨_, hwritten, failedRow_updatedAt _ _ _, failuresIn_failedRow times.windowMs_pos _ _, ?_⟩
  rw [failuresIn_failedRow times.windowMs_pos, failedRow_lockedUntil lease hfree, hlimit]

end

theorem nodup_writeFailures (failure : FailureTimes) (leases : List AttemptLease)
    (h : (rows.map LoginThrottle.throttleKey).Nodup) :
    ((leases.foldl (writeFailure failure) rows).map LoginThrottle.throttleKey).Nodup := by
  induction leases generalizing rows with
  | nil => exact h
  | cons lease leases ih => exact ih (nodup_upsert (failedRow_key failure lease) h)

/-- A report keeps the invariant: the leases it takes become failures. -/
theorem ThrottleInv.finishFailure (h : ThrottleInv times maxFailures s) (hclock : s.clock ≤ now)
    (attemptId : String) :
    ThrottleInv times maxFailures
      ⟨Auth.finishFailure attemptId now times.windowMs times.lockMs s.tables, now,
        s.attempts⟩ := by
  rcases h.held_or_none attemptId with hnone | ⟨account, ip, hattempt, hboth⟩
  · rw [finishFailure_of_unheld hnone]
    exact h.later hclock
  have hcounted := finishFailure_of_held times (h.distinct _ _ _ hattempt) hboth now
  have hleases := h.deleteLeases hclock
    (p := fun lease => decide (lease.attemptId = attemptId)) fun _ _ _ _ _ => rfl
  have hbegun : 0 ≤ s.clock := by
    refine h.clock_nonneg account ?_
    have hreturned := hcounted.returned account (.inl rfl)
    omega
  refine ⟨nodup_writeFailures _ _ h.throttleKeys, hleases.leaseKeys, hleases.attempts, h.distinct,
    hleases.held, ?_, ?_, ?_, fun hneg => absurd hneg (not_lt.mpr (le_trans hbegun hclock))⟩
  · intro key later hlater
    have hbound := h.bounded key now hclock
    refine le_trans (Nat.add_le_add_right (failuresIn_antitone hlater _) _) ?_
    by_cases hkey : key = account ∨ key = ip
    · obtain ⟨row, hrow, -, hmore, -⟩ := h.failed_row hclock hcounted hkey
      have hreturned := hcounted.returned key hkey
      simp only [hrow, hmore]
      omega
    · obtain ⟨haccount, hip⟩ := not_or.mp hkey
      simp only [hcounted.others key haccount hip, hcounted.sameLeases key haccount hip]
      exact hbound
  · intro key row hrow hlocked
    by_cases hkey : key = account ∨ key = ip
    · obtain ⟨row', hrow', -, hmore, hlock⟩ := h.failed_row hclock hcounted hkey
      have hreturned := hcounted.returned key hkey
      have hbound := h.bounded key now hclock
      obtain rfl : row' = row := Option.some.inj (hrow'.symm.trans hrow)
      simp only [hlock, hmore] at hlocked
      split at hlocked
      · simp only
        omega
      · omega
    · obtain ⟨haccount, hip⟩ := not_or.mp hkey
      simp only [hcounted.others key haccount hip] at hrow
      simp only [hcounted.sameLeases key haccount hip]
      exact h.locked key row hrow (lt_of_le_of_lt hclock hlocked)
  · intro key row hrow
    by_cases hkey : key = account ∨ key = ip
    · obtain ⟨row', hrow', hnow, -, hlock⟩ := h.failed_row hclock hcounted hkey
      obtain rfl : row' = row := Option.some.inj (hrow'.symm.trans hrow)
      rw [hlock, hnow]
      split
      · exact .inr le_rfl
      · exact .inl rfl
    · obtain ⟨haccount, hip⟩ := not_or.mp hkey
      simp only [hcounted.others key haccount hip] at hrow
      exact h.lockTime key row hrow

/-! ### Admission -/

/-- The tables after an attempt is admitted. -/
def withLeases (times : ThrottleTimes) (maxFailures : String → ℕ) (attemptId account ip : String)
    (now : ℤ) (t : ThrottleTables) : ThrottleTables :=
  { t with
    leases := t.leases ++
      [leaseFor maxFailures attemptId account now (now + times.leaseMs),
        leaseFor maxFailures attemptId ip now (now + times.leaseMs)] }

/-- A bucket that is asked for an attempt refuses it. -/
def refusesKey (times : ThrottleTimes) (maxFailures : String → ℕ) (now : ℤ) (t : ThrottleTables)
    (key : String) : Bool :=
  refuses now (now - times.windowMs) t ⟨key, maxFailures key⟩

/-- The leases that are left after the expired ones are deleted have all yet to end. -/
theorem deleteExpired_live (t : ThrottleTables) :
    ∀ lease ∈ (deleteExpired now t).leases, now < lease.expiresAt := by
  intro lease hlease
  have hlive := (mem_deleteWhere.mp hlease).2
  simpa using hlive

section

variable (hlive : ∀ lease ∈ t.leases, now < lease.expiresAt) (key : String)
include hlive key

theorem activeLeases_of_live : activeLeases now key t = t.leaseCount key := by
  refine List.countP_congr fun lease hlease => ?_
  simp [hlive lease hlease]

/-- A bucket that does not refuse is not locked and is below its limit. -/
theorem admits_iff :
    refusesKey times maxFailures now t key = false ↔
      ((t.throttle key).map LoginThrottle.lockedUntil).getD 0 ≤ now ∧
        failuresIn times.windowMs now (t.throttle key) + t.leaseCount key < maxFailures key := by
  simp only [refusesKey, refuses, windowFailures_eq, activeLeases_of_live hlive,
    Bool.or_eq_false_iff, decide_eq_false_iff_not, not_lt, not_le]

end

theorem leasesOf_of_fresh (h : ThrottleInv times maxFailures s) {attemptId : String}
    (hfresh : attemptId ∉ s.attempts.map Prod.fst) : s.tables.leasesOf attemptId = [] := by
  refine List.eq_nil_iff_forall_not_mem.mpr fun lease hlease => hfresh ?_
  obtain ⟨hmem, hid⟩ := mem_leasesOf.mp hlease
  exact hid ▸ h.attempts lease hmem

theorem leasesOf_withLeases (t : ThrottleTables) (attemptId account ip other : String) :
    (withLeases times maxFailures attemptId account ip now t).leasesOf other =
      t.leasesOf other ++ if other = attemptId then
        [leaseFor maxFailures attemptId account now (now + times.leaseMs),
          leaseFor maxFailures attemptId ip now (now + times.leaseMs)] else [] := by
  simp only [withLeases, leasesOf, List.filter_append]
  by_cases hid : other = attemptId
  · simp [leaseFor, hid]
  · simp [leaseFor, hid, Ne.symm hid]

theorem leaseCount_withLeases {account ip : String} (hne : account ≠ ip) (t : ThrottleTables)
    (attemptId key : String) :
    (withLeases times maxFailures attemptId account ip now t).leaseCount key =
      t.leaseCount key + if key = account ∨ key = ip then 1 else 0 := by
  simp only [withLeases, leaseCount, List.countP_append, leaseFor, List.countP_cons,
    List.countP_nil, decide_eq_true_eq]
  by_cases haccount : account = key
  · subst haccount
    simp [Ne.symm hne]
  · by_cases hip : ip = key
    · subst hip
      simp [haccount]
    · simp [haccount, hip, Ne.symm haccount, Ne.symm hip]

section

variable (h : ThrottleInv times maxFailures s)
include h

/-- An admission keeps the primary key. -/
theorem nodup_withLeases (hfresh : attemptId ∉ s.attempts.map Prod.fst) (hne : account ≠ ip) :
    ((withLeases times maxFailures attemptId account ip now s.tables).leases.map
      AttemptLease.key).Nodup := by
  simp only [withLeases, List.map_append, List.map_cons, List.map_nil]
  refine List.nodup_append.mpr ⟨h.leaseKeys, ?_, ?_⟩
  · simp [AttemptLease.key, leaseFor, hne]
  · intro key hkey key' hkey' he
    obtain ⟨lease, hlease, rfl⟩ := List.mem_map.mp hkey
    have hid : lease.attemptId = attemptId := by
      rw [← he] at hkey'
      simp only [AttemptLease.key, leaseFor, List.mem_cons, Prod.mk.injEq, List.not_mem_nil,
        or_false] at hkey'
      rcases hkey' with ⟨hid, -⟩ | ⟨hid, -⟩ <;> exact hid
    exact hfresh (hid ▸ h.attempts lease hlease)

/-- An attempt that no bucket refuses keeps the invariant: it was below the limit in both. -/
theorem ThrottleInv.withLeases (hnow : s.clock = now) (hfresh : attemptId ∉ s.attempts.map Prod.fst)
    (hne : account ≠ ip) (hlive : ∀ lease ∈ s.tables.leases, now < lease.expiresAt)
    (hadmits : ∀ key, key = account ∨ key = ip →
      refusesKey times maxFailures now s.tables key = false) :
    ThrottleInv times maxFailures
      ⟨Auth.withLeases times maxFailures attemptId account ip now s.tables, now,
        s.attempts ++ [(attemptId, account, ip)]⟩ := by
  have hnone := leasesOf_of_fresh h hfresh
  refine ⟨h.throttleKeys, nodup_withLeases h hfresh hne, ?_, ?_, ?_, ?_, ?_, h.lockTime, ?_⟩
  · intro lease hlease
    rw [List.map_append]
    rcases List.mem_append.mp hlease with hlease | hlease
    · exact List.mem_append_left _ (h.attempts lease hlease)
    · refine List.mem_append_right _ ?_
      simp only [List.mem_cons, List.not_mem_nil, or_false] at hlease
      rcases hlease with rfl | rfl <;> exact List.mem_singleton_self attemptId
  · intro attemptId' account' ip' hattempt
    rcases List.mem_append.mp hattempt with hattempt | hattempt
    · exact h.distinct _ _ _ hattempt
    · cases List.mem_singleton.mp hattempt
      exact hne
  · intro attemptId' account' ip' hattempt
    rcases List.mem_append.mp hattempt with hattempt | hattempt
    · have hother : attemptId' ≠ attemptId := fun he =>
        hfresh (he ▸ List.mem_map.mpr ⟨_, hattempt, rfl⟩)
      have hheld := h.held _ _ _ hattempt
      simp only [Held, leasesOf_withLeases, if_neg hother, List.append_nil] at hheld ⊢
      exact hheld
    · cases List.mem_singleton.mp hattempt
      refine .inr ⟨now, now + times.leaseMs, ?_⟩
      simp only [leasesOf_withLeases, hnone, if_true, List.nil_append]
  · intro key later hlater
    refine le_trans (Nat.add_le_add_right (failuresIn_antitone hlater _) _) ?_
    have hbound := h.bounded key now hnow.le
    simp only [leaseCount_withLeases hne]
    change failuresIn times.windowMs now (s.tables.throttle key) + _ ≤ _
    by_cases hkey : key = account ∨ key = ip
    · have hbelow := ((admits_iff hlive key).mp (hadmits key hkey)).2
      rw [if_pos hkey]
      omega
    · rw [if_neg hkey]
      exact hbound
  · intro key row hrow hlocked
    change s.tables.throttle key = some row at hrow
    simp only [leaseCount_withLeases hne]
    have hzero := h.locked key row hrow (hnow ▸ hlocked)
    by_cases hkey : key = account ∨ key = ip
    · have hfree := ((admits_iff hlive key).mp (hadmits key hkey)).1
      rw [hrow] at hfree
      exact absurd hlocked (not_lt.mpr hfree)
    · rw [if_neg hkey, hzero]
  · intro hneg
    -- before the clock began there are no rows, and a missing row is locked until time 0
    have hfree := ((admits_iff hlive account).mp (hadmits account (.inl rfl))).1
    rw [h.begun (hnow ▸ hneg)] at hfree
    exact absurd hneg (not_lt.mpr hfree)

/-- Expired leases may be deleted. -/
theorem ThrottleInv.deleteExpired (hclock : s.clock ≤ now) :
    ThrottleInv times maxFailures ⟨Auth.deleteExpired now s.tables, now, s.attempts⟩ :=
  h.deleteLeases hclock fun _ _ _ _ _ => rfl

end

theorem admitBatch_ok {input : AdmitInput} {rows : List AttemptLease}
    (hrows : requestedLeases input (deleteExpired input.now t) = rows)
    (hkeys : (((deleteExpired input.now t).leases ++ rows).map AttemptLease.key).Nodup) :
    admitBatch input t = .ok (rows.length,
      { deleteExpired input.now t with leases := (deleteExpired input.now t).leases ++ rows }) := by
  simp only [admitBatch, hrows, insertLeases, if_pos hkeys]
  rfl

/-- **The batch of an admission**: a bucket refuses the attempt and nothing is inserted, or neither
does and both leases are. -/
theorem ThrottleInv.admitBatch (h : ThrottleInv times maxFailures s) (hclock : s.clock ≤ now)
    (hfresh : attemptId ∉ s.attempts.map Prod.fst)
    (hne : account ≠ ip) :
    (∃ key, (key = account ∨ key = ip) ∧
        refusesKey times maxFailures now (Auth.deleteExpired now s.tables) key = true) ∧
        Auth.admitBatch (admitInput times maxFailures attemptId account ip now) s.tables =
          .ok (0, Auth.deleteExpired now s.tables) ∨
      (∀ key, key = account ∨ key = ip →
        refusesKey times maxFailures now (Auth.deleteExpired now s.tables) key = false) ∧
        Auth.admitBatch (admitInput times maxFailures attemptId account ip now) s.tables =
          .ok (2, Auth.withLeases times maxFailures attemptId account ip now
            (Auth.deleteExpired now s.tables)) := by
  have hlive := h.deleteExpired hclock
  by_cases hrefused : ∃ key, (key = account ∨ key = ip) ∧
      refusesKey times maxFailures now (Auth.deleteExpired now s.tables) key = true
  · refine .inl ⟨hrefused, ?_⟩
    obtain ⟨key, hkey, hrefuses⟩ := hrefused
    have hbucket : (⟨key, maxFailures key⟩ : LoginThrottleBucket) ∈
        (admitInput times maxFailures attemptId account ip now).buckets := by
      rcases hkey with rfl | rfl
      · exact List.mem_cons_self
      · exact List.mem_cons_of_mem _ List.mem_cons_self
    have hrows : requestedLeases (admitInput times maxFailures attemptId account ip now)
        (Auth.deleteExpired now s.tables) = [] :=
      if_pos (List.any_eq_true.mpr ⟨_, hbucket, hrefuses⟩)
    refine (admitBatch_ok hrows ?_).trans ?_
    · rw [List.append_nil]
      exact hlive.leaseKeys
    · rw [List.append_nil]
      rfl
  · simp only [not_exists, not_and, Bool.not_eq_true] at hrefused
    refine .inr ⟨hrefused, ?_⟩
    have hrows : requestedLeases (admitInput times maxFailures attemptId account ip now)
        (Auth.deleteExpired now s.tables) =
          [leaseFor maxFailures attemptId account now (now + times.leaseMs),
            leaseFor maxFailures attemptId ip now (now + times.leaseMs)] := by
      refine if_neg ?_
      rw [Bool.not_eq_true, List.any_eq_false]
      intro bucket hbucket
      rw [Bool.not_eq_true]
      simp only [admitInput, List.mem_cons, List.not_mem_nil, or_false] at hbucket
      rcases hbucket with rfl | rfl
      · exact hrefused account (.inl rfl)
      · exact hrefused ip (.inr rfl)
    exact admitBatch_ok hrows (nodup_withLeases hlive hfresh hne)

/-- An attempt that is refused leaves nothing behind. -/
theorem ThrottleInv.refused (h : ThrottleInv times maxFailures s)
    (hfresh : attemptId ∉ s.attempts.map Prod.fst) (hne : account ≠ ip) :
    ThrottleInv times maxFailures
      ⟨s.tables, s.clock, s.attempts ++ [(attemptId, account, ip)]⟩ := by
  refine ⟨h.throttleKeys, h.leaseKeys, ?_, ?_, ?_, h.bounded, h.locked, h.lockTime, h.begun⟩
  · intro lease hlease
    rw [List.map_append]
    exact List.mem_append_left _ (h.attempts lease hlease)
  · intro attemptId' account' ip' hattempt
    rcases List.mem_append.mp hattempt with hattempt | hattempt
    · exact h.distinct _ _ _ hattempt
    · cases List.mem_singleton.mp hattempt
      exact hne
  · intro attemptId' account' ip' hattempt
    rcases List.mem_append.mp hattempt with hattempt | hattempt
    · exact h.held _ _ _ hattempt
    · cases List.mem_singleton.mp hattempt
      exact .inl (leasesOf_of_fresh h hfresh)

/-! ### Pruned rows -/

theorem mem_staleKeys {olderThan : ℤ} {key : String} (h : key ∈ staleKeys olderThan rows) :
    ∃ row ∈ rows, row.throttleKey = key ∧ row.updatedAt < olderThan := by
  obtain ⟨row, hrow, rfl⟩ := List.mem_map.mp h
  have hselected := List.mem_mergeSort.mp (List.mem_of_mem_take hrow)
  obtain ⟨hmem, hold⟩ := List.mem_filter.mp hselected
  exact ⟨row, hmem, rfl, by simpa using hold⟩

/-! ### Every call -/

/-- What an admission does to the tables. -/
theorem callTables_admit {changes : ℕ}
    (h : admitBatch (admitInput times maxFailures attemptId account ip now) t =
      .ok (changes, t')) :
    callTables times maxFailures t (.admitAttempt attemptId account ip now) = t' := by
  simp only [callTables, h]

/-- **Every call keeps the invariant.** -/
theorem throttleInv_step {call : ThrottleCall} (h : ThrottleInv times maxFailures s)
    (hcall : Permitted s call) : ThrottleInv times maxFailures (step times maxFailures s call) := by
  obtain ⟨hclock, hcall⟩ := hcall
  cases call with
  | admitAttempt attemptId account ip now =>
      change s.clock ≤ now at hclock
      obtain ⟨hfresh, hne⟩ := hcall
      have hlive := h.deleteExpired hclock
      rcases h.admitBatch hclock hfresh hne with ⟨-, hbatch⟩ | ⟨hadmits, hbatch⟩
      · simp only [step, callTables_admit hbatch]
        exact hlive.refused hfresh hne
      · simp only [step, callTables_admit hbatch]
        exact hlive.withLeases rfl hfresh hne (deleteExpired_live s.tables) hadmits
  | finishSuccess attemptId now =>
      simp only [step, ThrottleCall.attempt, List.append_nil]
      exact h.deleteLeases hclock fun _ _ _ _ _ => rfl
  | finishFailure attemptId now =>
      simp only [step, ThrottleCall.attempt, List.append_nil]
      exact h.finishFailure hclock attemptId
  | prune olderThan now =>
      simp only [step, ThrottleCall.attempt, List.append_nil]
      exact (h.deleteThrottles _).deleteLeases hclock fun _ _ _ _ _ => rfl

/-- Every reachable state satisfies the invariant. -/
theorem throttleInv_run {calls : List ThrottleCall} {s : ThrottleSystem}
    (h : ThrottleInv times maxFailures s)
    (hcalls : Along (step times maxFailures) Permitted s calls) :
    ThrottleInv times maxFailures (run (step times maxFailures) s calls) :=
  run_invariant_of_along (fun _ _ => throttleInv_step) h calls hcalls

end MailPortal.Auth
