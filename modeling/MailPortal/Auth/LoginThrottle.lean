import MailPortal.Lib.Runs
import MailPortal.Lib.Table
import Mathlib.Data.List.Sort
import Mathlib.Data.String.Basic

/-!
# The Login Throttle

A login attempt is admitted against two buckets, the account and the address it comes from. The
store keeps two tables: `login_throttles` counts the failures of a bucket in its window and holds
its lock, `login_attempt_leases` has a row for every bucket of every attempt that is running. An
attempt is admitted when neither bucket is locked and in neither the failures and the running
attempts reach the limit; reporting a failure turns the leases of the attempt into failures.

Each call of the store is a batch of statements that the database runs as one. Times are
milliseconds and may be any integer.

Main definitions:

* `admitBatch`, `admitAttempt` : the admission of an attempt.
* `finishSuccess`, `finishFailure` : the report of its outcome.
* `prune` : the deletion of old rows.
* `step` : the system of the calls, with the clock and the attempts it has seen.
-/

namespace MailPortal.Auth

/-- A row of `login_throttles`. -/
structure LoginThrottle where
  throttleKey : String
  failureCount : ℕ
  windowStartedAt : ℤ
  lockedUntil : ℤ
  updatedAt : ℤ
  maxFailures : ℕ
deriving DecidableEq

/-- A row of `login_attempt_leases`. -/
structure AttemptLease where
  attemptId : String
  throttleKey : String
  maxFailures : ℕ
  acquiredAt : ℤ
  expiresAt : ℤ
deriving DecidableEq

/-- The primary key of `login_attempt_leases`. -/
def AttemptLease.key (lease : AttemptLease) : String × String :=
  (lease.attemptId, lease.throttleKey)

/-- The tables of the throttle. -/
structure ThrottleTables where
  throttles : List LoginThrottle
  leases : List AttemptLease
deriving DecidableEq

namespace ThrottleTables

/-- The row of a bucket, if it has one. -/
def throttle (t : ThrottleTables) (key : String) : Option LoginThrottle :=
  Table.lookup LoginThrottle.throttleKey key t.throttles

/-- The leases of an attempt. -/
def leasesOf (t : ThrottleTables) (attemptId : String) : List AttemptLease :=
  t.leases.filter fun lease => lease.attemptId = attemptId

/-- The number of leases in a bucket. -/
def leaseCount (t : ThrottleTables) (key : String) : ℕ :=
  t.leases.countP fun lease => lease.throttleKey = key

end ThrottleTables

/-- A key, and its failures allowed. -/
structure LoginThrottleBucket where
  key : String
  maxFailures : ℕ
deriving DecidableEq

/-- An attempt to be admitted. -/
structure AdmitInput where
  attemptId : String
  buckets : List LoginThrottleBucket
  now : ℤ
  windowMs : ℤ
  leaseMs : ℤ

/-- What an attempt is told. -/
structure LoginAdmission where
  allowed : Bool
  retryAfterMs : ℤ
deriving DecidableEq

/-! ### Admission -/

/-- `DELETE FROM login_attempt_leases WHERE expires_at <= ?` -/
def deleteExpired (now : ℤ) (t : ThrottleTables) : ThrottleTables :=
  { t with leases := Table.deleteWhere (fun lease => lease.expiresAt ≤ now) t.leases }

/-- The failures of a bucket that its window still counts, for the row a left join finds. -/
def windowFailures (windowCutoff : ℤ) (row : Option LoginThrottle) : ℕ :=
  if (row.map LoginThrottle.windowStartedAt).getD 0 ≤ windowCutoff then 0
  else (row.map LoginThrottle.failureCount).getD 0

/-- The leases of a bucket that are still running. -/
def activeLeases (now : ℤ) (key : String) (t : ThrottleTables) : ℕ :=
  t.leases.countP fun lease => lease.throttleKey = key ∧ now < lease.expiresAt

/-- The condition under which a bucket refuses an attempt. -/
def refuses (now windowCutoff : ℤ) (t : ThrottleTables) (candidate : LoginThrottleBucket) : Bool :=
  let row := t.throttle candidate.key
  decide (now < (row.map LoginThrottle.lockedUntil).getD 0) ||
    decide (candidate.maxFailures ≤
      windowFailures windowCutoff row + activeLeases now candidate.key t)

/-- The lease of an attempt in a bucket. -/
def AdmitInput.lease (input : AdmitInput) (bucket : LoginThrottleBucket) : AttemptLease where
  attemptId := input.attemptId
  throttleKey := bucket.key
  maxFailures := bucket.maxFailures
  acquiredAt := input.now
  expiresAt := input.now + input.leaseMs

/-- The rows that the guarded `INSERT ... SELECT` selects: one for every bucket, or none. -/
def requestedLeases (input : AdmitInput) (t : ThrottleTables) : List AttemptLease :=
  if input.buckets.any (refuses input.now (input.now - input.windowMs) t) then []
  else input.buckets.map input.lease

/-- Rows are inserted if the primary key stays unique; else the batch is rolled back. -/
def insertLeases (rows : List AttemptLease) (t : ThrottleTables) :
    Except String ThrottleTables :=
  if ((t.leases ++ rows).map AttemptLease.key).Nodup then
    .ok { t with leases := t.leases ++ rows }
  else
    .error "UNIQUE constraint failed"

/-- The batch of an admission, with the number of rows its insertion changed. -/
def admitBatch (input : AdmitInput) (t : ThrottleTables) : Except String (ℕ × ThrottleTables) := do
  let live := deleteExpired input.now t
  let rows := requestedLeases input live
  let t' ← insertLeases rows live
  return (rows.length, t')

/-- When to try again: the latest lock, the first lease to end, and a second at least. -/
def retryAfterMs (input : AdmitInput) (t : ThrottleTables) : ℤ :=
  let keys := input.buckets.map LoginThrottleBucket.key
  let lockedUntil := (keys.map fun key =>
    ((t.throttle key).map LoginThrottle.lockedUntil).getD 0).max?
  let leaseExpiresAt := ((t.leases.filter fun lease =>
    lease.throttleKey ∈ keys ∧ input.now < lease.expiresAt).map AttemptLease.expiresAt).min?
  max (max (lockedUntil.getD 0) (leaseExpiresAt.getD 0)) (input.now + 1000) - input.now

/-- The admission of an attempt. A refused attempt reads the tables once more to say when to try
again; `later` is what other requests have done to them by then. -/
def admitAttempt (input : AdmitInput) (later : ThrottleTables → ThrottleTables)
    (t : ThrottleTables) : Except String (LoginAdmission × ThrottleTables) := do
  if input.buckets.length ≠ 2 then
    throw "Login admission requires account and IP buckets"
  let (changes, t') ← admitBatch input t
  if changes = input.buckets.length then
    return (⟨true, 0⟩, t')
  return (⟨false, retryAfterMs input (later t')⟩, t')

/-! ### The outcome of an attempt -/

/-- `DELETE FROM login_attempt_leases WHERE attempt_id = ?` -/
def deleteLeasesOf (attemptId : String) (t : ThrottleTables) : ThrottleTables :=
  { t with leases := Table.deleteWhere (fun lease => lease.attemptId = attemptId) t.leases }

def finishSuccess (attemptId : String) (t : ThrottleTables) : ThrottleTables :=
  deleteLeasesOf attemptId t

/-- The times of a failure report: the batch binds the report's clock, the start of the window and
the end of a lock that begins now. -/
structure FailureTimes where
  now : ℤ
  windowCutoff : ℤ
  lockUntil : ℤ

/-- The row of a bucket after a failure under a lease: `ON CONFLICT DO UPDATE` over the row it
finds, a new row when there is none. -/
def failedRow (times : FailureTimes) (lease : AttemptLease) :
    Option LoginThrottle → LoginThrottle
  | none =>
      { throttleKey := lease.throttleKey
        failureCount := 1
        windowStartedAt := times.now
        lockedUntil := if lease.maxFailures ≤ 1 then times.lockUntil else 0
        updatedAt := times.now
        maxFailures := lease.maxFailures }
  | some row =>
      let rolled := row.windowStartedAt ≤ times.windowCutoff
      { throttleKey := lease.throttleKey
        failureCount := if rolled then 1 else row.failureCount + 1
        windowStartedAt := if rolled then times.now else row.windowStartedAt
        lockedUntil :=
          if times.now < row.lockedUntil then row.lockedUntil
          else if lease.maxFailures ≤ (if rolled then 1 else row.failureCount + 1) then
            times.lockUntil
          else 0
        updatedAt := times.now
        maxFailures := lease.maxFailures }

/-- A failure is written to the bucket of one lease. -/
def writeFailure (times : FailureTimes) (rows : List LoginThrottle) (lease : AttemptLease) :
    List LoginThrottle :=
  Table.upsert LoginThrottle.throttleKey lease.throttleKey (failedRow times lease) rows

def finishFailure (attemptId : String) (now windowMs lockMs : ℤ) (t : ThrottleTables) :
    ThrottleTables :=
  let times : FailureTimes := ⟨now, now - windowMs, now + lockMs⟩
  deleteLeasesOf attemptId
    { t with throttles := (t.leasesOf attemptId).foldl (writeFailure times) t.throttles }

/-! ### Pruning -/

def dayMs : ℤ := 24 * 60 * 60 * 1000

/-- The keys of the hundred oldest rows that were not written since `olderThan`. -/
def staleKeys (olderThan : ℤ) (rows : List LoginThrottle) : List String :=
  (((rows.filter fun row => row.updatedAt < olderThan).mergeSort
    fun row row' => decide (row.updatedAt ≤ row'.updatedAt)).take 100).map
      LoginThrottle.throttleKey

def prune (olderThan : ℤ) (t : ThrottleTables) : ThrottleTables where
  leases := Table.deleteWhere (fun lease => lease.expiresAt < olderThan + dayMs) t.leases
  throttles := Table.deleteWhere (fun row => row.throttleKey ∈ staleKeys olderThan t.throttles)
    t.throttles

/-! ### The system -/

/-- The durations that the throttle is used with. Rows are pruned after a day, so that a lock
may not be longer. -/
structure ThrottleTimes where
  windowMs : ℤ
  lockMs : ℤ
  leaseMs : ℤ
  windowMs_pos : 0 < windowMs
  lockMs_le : lockMs ≤ dayMs

/-- `WINDOW_MS`, `LOCK_MS` and `ATTEMPT_LEASE_MS`. -/
def loginTimes : ThrottleTimes where
  windowMs := 15 * 60 * 1000
  lockMs := 15 * 60 * 1000
  leaseMs := 60 * 1000
  windowMs_pos := by decide
  lockMs_le := by decide

/-- The calls of the store, each with the time it is made at. -/
inductive ThrottleCall where
  | admitAttempt (attemptId account ip : String) (now : ℤ)
  | finishSuccess (attemptId : String) (now : ℤ)
  | finishFailure (attemptId : String) (now : ℤ)
  | prune (olderThan now : ℤ)

def ThrottleCall.now : ThrottleCall → ℤ
  | admitAttempt _ _ _ now => now
  | finishSuccess _ now => now
  | finishFailure _ now => now
  | prune _ now => now

/-- The tables, with the clock and the attempts that asked for admission so far. -/
structure ThrottleSystem where
  tables : ThrottleTables
  clock : ℤ
  attempts : List (String × String × String)

/-- The system before the first call. -/
def ThrottleSystem.start (clock : ℤ) : ThrottleSystem := ⟨⟨[], []⟩, clock, []⟩

variable (times : ThrottleTimes) (maxFailures : String → ℕ)

/-- The input of an admission, under the limit of each bucket. -/
def admitInput (attemptId account ip : String) (now : ℤ) : AdmitInput where
  attemptId := attemptId
  buckets := [⟨account, maxFailures account⟩, ⟨ip, maxFailures ip⟩]
  now := now
  windowMs := times.windowMs
  leaseMs := times.leaseMs

/-- What a call does to the tables; a batch that fails is rolled back. -/
def callTables (t : ThrottleTables) : ThrottleCall → ThrottleTables
  | .admitAttempt attemptId account ip now =>
      match admitBatch (admitInput times maxFailures attemptId account ip now) t with
      | .ok (_, t') => t'
      | .error _ => t
  | .finishSuccess attemptId _ => finishSuccess attemptId t
  | .finishFailure attemptId now => finishFailure attemptId now times.windowMs times.lockMs t
  | .prune olderThan _ => prune olderThan t

/-- The attempt that a call brings in. -/
def ThrottleCall.attempt : ThrottleCall → List (String × String × String)
  | .admitAttempt attemptId account ip _ => [(attemptId, account, ip)]
  | .finishSuccess .. | .finishFailure .. | .prune .. => []

/-- One call. -/
def step (s : ThrottleSystem) (call : ThrottleCall) : ThrottleSystem where
  tables := callTables times maxFailures s.tables call
  clock := call.now
  attempts := s.attempts ++ call.attempt

/-- A call that the callers make: the clock does not go back, the id of an attempt is fresh, its
buckets are distinct, and rows are pruned by a clock of a day ago. -/
def Permitted (s : ThrottleSystem) (call : ThrottleCall) : Prop :=
  s.clock ≤ call.now ∧
    match call with
    | .admitAttempt attemptId account ip _ =>
        attemptId ∉ s.attempts.map Prod.fst ∧ account ≠ ip
    | .finishSuccess .. | .finishFailure .. => True
    | .prune olderThan now => olderThan + dayMs ≤ now

instance decidablePermitted (s : ThrottleSystem) (call : ThrottleCall) :
    Decidable (Permitted s call) := by
  cases call <;> exact instDecidableAnd

end MailPortal.Auth
