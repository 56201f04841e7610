import MailPortal.Auth.ThrottleInvariant

/-!
# The Accounts of the Login Throttle

What callers can rely on in every reachable state. The failures that a bucket counts and the leases
it holds stay within its limit. An attempt is admitted with a lease in both of its buckets while
neither is locked, or has none for good. Its first report turns the leases into failures, and the
failure that reaches a limit locks the bucket for as long as the lock is meant to last.

What leases do not see is an attempt that outlives its own: its failure is not counted.

Main results:

* `locked_run` : a locked bucket stays as it is.
* `throttle_accounting` : the accounts of every reachable state.
* `late_failures` : attempts that outlive their leases may fail more often than the limit.
-/

namespace MailPortal.Auth

open Runs

variable {times : ThrottleTimes} {maxFailures : String → ℕ} {s : ThrottleSystem} {now : ℤ}
variable {calls : List ThrottleCall} {attemptId : String}
variable {call : ThrottleCall} {key account ip : String} {row : LoginThrottle}

/-! ### Later states -/

/-- The clock of a run does not go back. -/
theorem clock_le_run {s : ThrottleSystem}
    (hcalls : Along (step times maxFailures) Permitted s calls) :
    s.clock ≤ (run (step times maxFailures) s calls).clock := by
  induction calls generalizing s with
  | nil => exact le_rfl
  | cons call calls ih => exact le_trans hcalls.cons.1.1 (ih hcalls.cons.2)

/-- An attempt that has no leases gets none: its id is not used again. -/
theorem unheld_step (h : ThrottleInv times maxFailures s) (hcall : Permitted s call)
    (hseen : attemptId ∈ s.attempts.map Prod.fst) (hnone : s.tables.leasesOf attemptId = []) :
    (step times maxFailures s call).tables.leasesOf attemptId = [] := by
  obtain ⟨hclock, hcall⟩ := hcall
  have hdelete : ∀ (p : AttemptLease → Bool) throttles, ThrottleTables.leasesOf
      ⟨throttles, Table.deleteWhere p s.tables.leases⟩ attemptId = [] := by
    intro p throttles
    rw [leasesOf_deleteWhere, hnone]
    rfl
  cases call with
  | admitAttempt attemptId' account ip now =>
      change s.clock ≤ now at hclock
      obtain ⟨hfresh, hne⟩ := hcall
      have hother : attemptId ≠ attemptId' := fun he => hfresh (he ▸ hseen)
      rcases h.admitBatch hclock hfresh hne with ⟨-, hbatch⟩ | ⟨-, hbatch⟩
      · simp only [step, callTables_admit hbatch]
        exact hdelete _ _
      · simp only [step, callTables_admit hbatch, leasesOf_withLeases, if_neg hother]
        rw [List.append_nil]
        exact hdelete _ _
  | finishSuccess attemptId' now => exact hdelete _ _
  | finishFailure attemptId' now => exact hdelete _ _
  | prune olderThan now => exact hdelete _ _

/-- What a run keeps of an attempt without leases. -/
theorem unheld_run {s : ThrottleSystem} (h : ThrottleInv times maxFailures s)
    (hcalls : Along (step times maxFailures) Permitted s calls)
    (hseen : attemptId ∈ s.attempts.map Prod.fst) (hnone : s.tables.leasesOf attemptId = []) :
    (run (step times maxFailures) s calls).tables.leasesOf attemptId = [] := by
  induction calls generalizing s with
  | nil => exact hnone
  | cons call calls ih =>
      obtain ⟨hcall, hcalls⟩ := hcalls.cons
      refine ih (throttleInv_step h hcall) hcalls ?_ (unheld_step h hcall hseen hnone)
      simp only [step, List.map_append]
      exact List.mem_append_left _ hseen

/-- A locked bucket stays as it is: it has no lease that could fail, and its row is not old enough
to be pruned. -/
theorem locked_step (h : ThrottleInv times maxFailures s) (hcall : Permitted s call)
    (hrow : s.tables.throttle key = some row) (hlocked : call.now < row.lockedUntil) :
    (step times maxFailures s call).tables.throttle key = some row := by
  obtain ⟨hclock, hcall⟩ := hcall
  have hzero : s.tables.leaseCount key = 0 := h.locked key row hrow (lt_of_le_of_lt hclock hlocked)
  cases call with
  | admitAttempt attemptId account ip now =>
      change s.clock ≤ now at hclock
      obtain ⟨hfresh, hne⟩ := hcall
      rcases h.admitBatch hclock hfresh hne with ⟨-, hbatch⟩ | ⟨-, hbatch⟩
      · simp only [step, callTables_admit hbatch]
        exact hrow
      · simp only [step, callTables_admit hbatch]
        exact hrow
  | finishSuccess attemptId now => exact hrow
  | finishFailure attemptId now =>
      simp only [step, callTables]
      rcases h.held_or_none attemptId with hnone | ⟨account, ip, hattempt, hboth⟩
      · rw [finishFailure_of_unheld hnone]
        exact hrow
      · have hcounted := finishFailure_of_held times (h.distinct _ _ _ hattempt) hboth now
        rw [hcounted.others key, hrow]
        · rintro rfl
          have hreturned := hcounted.returned key (.inl rfl)
          omega
        · rintro rfl
          have hreturned := hcounted.returned key (.inr rfl)
          omega
  | prune olderThan now =>
      change olderThan + dayMs ≤ now at hcall
      change now < row.lockedUntil at hlocked
      simp only [step, callTables, prune, ThrottleTables.throttle,
        Table.lookup_deleteWhere h.throttleKeys]
      refine Option.filter_eq_some_iff.mpr ⟨hrow, ?_⟩
      obtain ⟨hmem, rfl⟩ := Table.lookup_eq_some hrow
      simp only [Bool.not_eq_eq_eq_not, Bool.not_true, decide_eq_false_iff_not]
      intro hstale
      obtain ⟨row', hmem', hkey, hold⟩ := mem_staleKeys hstale
      obtain rfl : row' = row := Table.eq_of_key_eq h.throttleKeys hmem' hmem hkey
      rcases h.lockTime _ row' hrow with hzero | hlock
      · -- a lock at time 0 is not ahead of a clock that has begun
        have hbegun := h.begun (by change s.clock ≤ now at hclock; omega)
        rw [hbegun] at hmem
        cases hmem
      · have hday := times.lockMs_le
        omega

theorem locked_run {s : ThrottleSystem} (h : ThrottleInv times maxFailures s)
    (hcalls : Along (step times maxFailures) Permitted s calls)
    (hrow : s.tables.throttle key = some row)
    (hlocked : (run (step times maxFailures) s calls).clock < row.lockedUntil) :
    (run (step times maxFailures) s calls).tables.throttle key = some row := by
  induction calls generalizing s with
  | nil => exact hrow
  | cons call calls ih =>
      obtain ⟨hcall, hrest⟩ := hcalls.cons
      have hclock : call.now ≤ (run (step times maxFailures) s (call :: calls)).clock :=
        clock_le_run hrest
      exact ih (throttleInv_step h hcall) hrest
        (locked_step h hcall hrow (lt_of_le_of_lt hclock hlocked)) hlocked

/-! ### The accounts -/

/-- A bucket stays locked until a time, whatever is called. -/
def StaysLocked (times : ThrottleTimes) (maxFailures : String → ℕ) (s : ThrottleSystem)
    (key : String) (lockedUntil : ℤ) : Prop :=
  ∀ later, Along (step times maxFailures) Permitted s later →
    (run (step times maxFailures) s later).clock < lockedUntil →
      ∃ row, (run (step times maxFailures) s later).tables.throttle key = some row ∧
        row.lockedUntil = lockedUntil

/-- The result of an admission from a state `s` into `s'`. -/
structure AdmissionAccounted (times : ThrottleTimes) (maxFailures : String → ℕ)
    (attemptId account ip : String) (now : ℤ) (admission : LoginAdmission)
    (s s' : ThrottleSystem) : Prop where
  both : admission.allowed = true → ∀ key, key = account ∨ key = ip →
    ∃ lease ∈ s'.tables.leases, lease.key = (attemptId, key)
  neither : admission.allowed = false → ∀ later,
    Along (step times maxFailures) Permitted s' later →
      (run (step times maxFailures) s' later).tables.leasesOf attemptId = []
  unlocked : admission.allowed = true → ∀ key, key = account ∨ key = ip →
    ∀ row, s.tables.throttle key = some row → row.lockedUntil ≤ now

/-- The result of a failure that is reported under stored leases, from a state `s` into `s'`. -/
structure FailureAccounted (times : ThrottleTimes) (maxFailures : String → ℕ)
    (account ip : String) (now : ℤ) (s s' : ThrottleSystem) : Prop where
  counted : ∀ key, key = account ∨ key = ip →
    failuresIn times.windowMs now (s'.tables.throttle key) =
      failuresIn times.windowMs now (s.tables.throttle key) + 1
  locks : ∀ key, key = account ∨ key = ip →
    maxFailures key ≤ failuresIn times.windowMs now (s'.tables.throttle key) →
      StaysLocked times maxFailures s' key (now + times.lockMs)
  others : ∀ key, key ≠ account → key ≠ ip → s'.tables.throttle key = s.tables.throttle key

/-- What the throttle keeps account of in a state. -/
structure Accounted (times : ThrottleTimes) (maxFailures : String → ℕ) (s : ThrottleSystem) :
    Prop where
  /-- The failures a bucket counts and the leases it holds are within its limit. -/
  bounded : ∀ key now, s.clock ≤ now →
    failuresIn times.windowMs now (s.tables.throttle key) + s.tables.leaseCount key ≤
      maxFailures key
  /-- An admitted attempt has a lease in both buckets, none of which is locked; a denied one never
  has any. -/
  admitted : ∀ attemptId account ip now later,
    Permitted s (.admitAttempt attemptId account ip now) → ∃ admission,
      admitAttempt (admitInput times maxFailures attemptId account ip now) later s.tables =
        .ok (admission,
          (step times maxFailures s (.admitAttempt attemptId account ip now)).tables) ∧
      AdmissionAccounted times maxFailures attemptId account ip now admission s
        (step times maxFailures s (.admitAttempt attemptId account ip now))
  /-- A failure that is reported while a lease of the attempt is stored counts in both buckets,
  and locks one that reaches its limit. -/
  failed : ∀ attemptId account ip now, (attemptId, account, ip) ∈ s.attempts →
    Permitted s (.finishFailure attemptId now) → s.tables.leasesOf attemptId ≠ [] →
      FailureAccounted times maxFailures account ip now s
        (step times maxFailures s (.finishFailure attemptId now))
  /-- After an attempt is reported, a failure reported for it changes nothing. -/
  once : ∀ attemptId call later now, attemptId ∈ s.attempts.map Prod.fst →
    (∃ at_, call = .finishFailure attemptId at_ ∨ call = .finishSuccess attemptId at_) →
    Permitted s call → Along (step times maxFailures) Permitted s (call :: later) →
      finishFailure attemptId now times.windowMs times.lockMs
          (run (step times maxFailures) s (call :: later)).tables =
        (run (step times maxFailures) s (call :: later)).tables
  /-- A success changes no counter. -/
  succeeded : ∀ attemptId now,
    (step times maxFailures s (.finishSuccess attemptId now)).tables.throttles =
      s.tables.throttles

/-- An admission leaves the leases of the attempt in both buckets or in neither. -/
theorem ThrottleInv.admission (h : ThrottleInv times maxFailures s)
    (hcall : Permitted s (.admitAttempt attemptId account ip now))
    (later : ThrottleTables → ThrottleTables) : ∃ admission,
      admitAttempt (admitInput times maxFailures attemptId account ip now) later s.tables =
        .ok (admission,
          (step times maxFailures s (.admitAttempt attemptId account ip now)).tables) ∧
      AdmissionAccounted times maxFailures attemptId account ip now admission s
        (step times maxFailures s (.admitAttempt attemptId account ip now)) := by
  have hnext := throttleInv_step h hcall
  obtain ⟨hclock, hfresh, hne⟩ := hcall
  change s.clock ≤ now at hclock
  have hbuckets : (admitInput times maxFailures attemptId account ip now).buckets.length = 2 := rfl
  rcases h.admitBatch hclock hfresh hne with ⟨-, hbatch⟩ | ⟨hadmits, hbatch⟩
  · refine ⟨⟨false, retryAfterMs (admitInput times maxFailures attemptId account ip now)
        (later (Auth.deleteExpired now s.tables))⟩, ?_, fun hallowed => ?_,
      fun _ calls hcalls => ?_, fun hallowed => ?_⟩
    · simp only [admitAttempt, hbuckets, hbatch, step, callTables_admit hbatch]
      rfl
    · cases hallowed
    · refine unheld_run hnext hcalls ?_ ?_
      · simp only [step, ThrottleCall.attempt, List.map_append]
        exact List.mem_append_right _ List.mem_cons_self
      · simp only [step, callTables_admit hbatch]
        exact leasesOf_of_fresh (h.deleteExpired hclock) hfresh
    · cases hallowed
  · refine ⟨⟨true, 0⟩, ?_, fun _ key hkey => ?_,
      fun hallowed => absurd hallowed.symm Bool.false_ne_true, fun _ key hkey row hrow => ?_⟩
    · simp only [admitAttempt, hbuckets, hbatch, step, callTables_admit hbatch]
      rfl
    · simp only [step, callTables_admit hbatch]
      refine ⟨leaseFor maxFailures attemptId key now (now + times.leaseMs), ?_, rfl⟩
      refine List.mem_append_right _ ?_
      rcases hkey with rfl | rfl
      · exact List.mem_cons_self
      · exact List.mem_cons_of_mem _ List.mem_cons_self
    · have hfree := ((admits_iff (deleteExpired_live s.tables) key).mp (hadmits key hkey)).1
      rw [show (Auth.deleteExpired now s.tables).throttle key = some row from hrow] at hfree
      exact hfree

/-- A report under stored leases counts in both buckets. -/
theorem ThrottleInv.failure (h : ThrottleInv times maxFailures s)
    (hattempt : (attemptId, account, ip) ∈ s.attempts)
    (hcall : Permitted s (.finishFailure attemptId now))
    (hheld : s.tables.leasesOf attemptId ≠ []) :
    FailureAccounted times maxFailures account ip now s
      (step times maxFailures s (.finishFailure attemptId now)) := by
  have hnext := throttleInv_step h hcall
  have hclock : s.clock ≤ now := hcall.1
  have hboth := (h.held _ _ _ hattempt).resolve_left hheld
  have hcounted := finishFailure_of_held times (h.distinct _ _ _ hattempt) hboth now
  refine ⟨fun key hkey => ?_, fun key hkey hlimit later hlater hclock' => ?_, hcounted.others⟩
  · obtain ⟨row, hrow, -, hmore, -⟩ := h.failed_row hclock hcounted hkey
    simp only [step, callTables, hrow, hmore]
  · obtain ⟨row, hrow, -, -, hlock⟩ := h.failed_row hclock hcounted hkey
    simp only [step, callTables, hrow] at hlimit
    rw [if_pos hlimit] at hlock
    exact ⟨row, locked_run hnext hlater hrow (by rw [hlock]; exact hclock'), hlock⟩

/-- Once an attempt is reported it has no leases left. -/
theorem leasesOf_deleteLeasesOf (t : ThrottleTables) (attemptId : String) :
    (deleteLeasesOf attemptId t).leasesOf attemptId = [] := by
  refine List.eq_nil_iff_forall_not_mem.mpr fun lease hlease => ?_
  obtain ⟨hmem, hid⟩ := mem_leasesOf.mp hlease
  have hother := (Table.mem_deleteWhere.mp hmem).2
  simp [hid] at hother

/-- **The accounts of the throttle**: what holds in every reachable state. -/
theorem throttle_accounting (clock : ℤ) (calls : List ThrottleCall)
    (hcalls : Along (step times maxFailures) Permitted (.start clock) calls) :
    Accounted times maxFailures (run (step times maxFailures) (.start clock) calls) := by
  have h := throttleInv_run (throttleInv_start clock) hcalls
  generalize run (step times maxFailures) (.start clock) calls = s at h
  refine ⟨h.bounded, fun _ _ _ _ later hcall => h.admission hcall later,
    fun _ _ _ _ hattempt hcall hheld => h.failure hattempt hcall hheld, ?_, fun _ _ => rfl⟩
  intro attemptId call later now hseen hreport hcall hlater
  refine finishFailure_of_unheld (unheld_run (throttleInv_step h hcall) hlater.cons.2 ?_ ?_) _ _ _
  · simp only [step, List.map_append]
    exact List.mem_append_left _ hseen
  · obtain ⟨_, rfl | rfl⟩ := hreport
    · exact leasesOf_deleteLeasesOf _ _
    · exact leasesOf_deleteLeasesOf _ _

/-- Five failures for an account and twenty for an address. -/
def sampleLimits (key : String) : ℕ := if key = "account" then 5 else 20

/-- Five attempts run longer than their leases, a sixth is admitted, and all of them fail. -/
def lateCalls : List ThrottleCall :=
  ["a", "b", "c", "d", "e"].map (fun attemptId => .admitAttempt attemptId "account" "ip" 0) ++
    .admitAttempt "f" "account" "ip" 60000 ::
      ["a", "b", "c", "d", "e", "f"].map fun attemptId => .finishFailure attemptId 60001

/-- The accounts after the late failures. -/
theorem throttle_accounting_sample :
    Accounted loginTimes sampleLimits
      (run (step loginTimes sampleLimits) (.start 0) lateCalls) :=
  throttle_accounting 0 lateCalls (by decide +kernel)

/-! ### Attempts that outlive their leases -/

/-- The attempts of an account that a run admits. -/
def admittedAttempts (times : ThrottleTimes) (maxFailures : String → ℕ) (account : String) :
    ThrottleSystem → List ThrottleCall → List String
  | _, [] => []
  | s, call :: calls =>
      (match call with
        | .admitAttempt attemptId account' ip now =>
            match admitAttempt (admitInput times maxFailures attemptId account' ip now) id
              s.tables with
            | .ok (admission, _) =>
                if account' = account ∧ admission.allowed = true then [attemptId] else []
            | .error _ => []
        | _ => []) ++
        admittedAttempts times maxFailures account (step times maxFailures s call) calls

/-- The attempts whose failure is reported in the window that opens at a time. -/
def reportedFailures (times : ThrottleTimes) (opened : ℤ) (calls : List ThrottleCall) :
    List String :=
  calls.filterMap fun call =>
    match call with
    | .finishFailure attemptId now =>
        if opened ≤ now ∧ now < opened + times.windowMs then some attemptId else none
    | _ => none

/-- The guesses at an account that have failed in a window. -/
def failedGuesses (times : ThrottleTimes) (maxFailures : String → ℕ) (account : String)
    (opened : ℤ) (s : ThrottleSystem) (calls : List ThrottleCall) : List String :=
  (admittedAttempts times maxFailures account s calls).filter fun attemptId =>
    attemptId ∈ reportedFailures times opened calls

/-- An account may have more failed guesses in a window than its limit. -/
theorem late_failures :
    ¬ ∀ (clock opened : ℤ) (account : String) (calls : List ThrottleCall),
      Along (step loginTimes sampleLimits) Permitted (.start clock) calls →
        (failedGuesses loginTimes sampleLimits account opened (.start clock) calls).length ≤
          sampleLimits account := by
  intro h
  have hlimit := h 0 0 "account" lateCalls (by decide +kernel)
  exact absurd hlimit (by decide +kernel)

end MailPortal.Auth
