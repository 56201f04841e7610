import MailPortal.Derived.RepairKept

/-!
# An Attempt is Resolved Once

Any number of workers run `reconcilePendingInboundRepairAttempts`, persist and resolve attempts, and
may stop anywhere. The resolution of an attempt is written once; its pending record goes only when
that is done, and the clean-up of what it discards. Until then the record is there, and a run whose
page lists it, and whose calls are served, finishes the attempt.

Main results:

* `repair_attempt_once` : the resolution, who knows it, when the record is deleted, and how a later
  run finishes what others have left.
-/

namespace MailPortal.Derived

open Concurrent Json

variable {α β : Type} {host : HostRuntime} {attempt other : RepairAttempt} {w w' : LedgerWorld}
variable {op : LedgerOp} {answer : Option op.Value}

/-! ### Calls that are served -/

/-- The grace of the attempt has passed. -/
def GracePassed (host : HostRuntime) (attempt : RepairAttempt) (now : ℤ) : Prop :=
  ∀ createdAt, host.dateParse attempt.createdAt = some createdAt →
    repairAttemptGraceMs ≤ now - createdAt

/-- The call is served: it does not fail, the page lists the attempt, and the mailbox decides on the
attempt and accounts for its objects. -/
def LedgerOp.Serves (host : HostRuntime) (attempt : RepairAttempt) :
    (op : LedgerOp) → LedgerWorld → Option op.Value → LedgerWorld → Prop
  | .get key, w, answer, w' => w' = w ∧
      ((w.bucket key = none ∧ answer = some .absent) ∨
        ∃ text, w.bucket key = some text ∧ answer = some (.found text true))
  | .put key value condition, w, answer, w' =>
      (condition.Holds (w.bucket key) ∧ answer = some true ∧
        w' = w.write key value) ∨
      (¬ condition.Holds (w.bucket key) ∧ answer = some false ∧ w' = w)
  | .delete key, w, answer, w' =>
      answer = some () ∧ w' = { w with bucket := w.bucket.set key none }
  | .enqueue _ request, w, answer, w' =>
      (∃ counts, answer = some counts ∧ (request = attempt.cleanupRequest →
        counts.accountFor attempt.proof.objects = true)) ∧
      w' = { w with requests := (request, answer) :: w.requests }
  | .list .., w, answer, w' =>
      (∃ page : Page String, answer = some page ∧ attempt.pendingKey ∈ page.objects) ∧ w' = w
  | .listObjects start cursor, w, answer, w' => answer.isSome ∧
      w' = { w with listed := ⟨start, cursor, answer⟩ :: w.listed }
  | .finalize other, w, answer, w' =>
      (∃ terminal, answer = some terminal ∧ (other = attempt → terminal ≠ .other)) ∧ w' = w
  | .manifest .., w, answer, w' => answer.isSome ∧ w' = w
  | .now, w, answer, w' => (∃ now, answer = some now ∧ GracePassed host attempt now) ∧ w' = w
  | .logRefs, w, answer, w' => answer = some () ∧ w' = w
  | .note told, w, answer, w' =>
      answer = some () ∧ w' = { w with noted := told :: w.noted }

theorem LedgerOp.Serves.exec (h : op.Serves host attempt w answer w') : op.Exec w answer w' := by
  cases op with
  | get key =>
      obtain ⟨rfl, ⟨hnone, rfl⟩ | ⟨text, hsome, rfl⟩⟩ := h
      · exact ⟨.absent hnone, rfl⟩
      · exact ⟨.found text true hsome, rfl⟩
  | put key value condition =>
      obtain ⟨hholds, rfl, rfl⟩ | ⟨-, rfl, rfl⟩ := h
      · exact ⟨_, .written hholds, rfl⟩
      · exact ⟨_, .refused, rfl⟩
  | delete key =>
      obtain ⟨rfl, rfl⟩ := h
      exact ⟨_, .deleted, rfl⟩
  | enqueue mailboxId request => exact h.2
  | list start cursor => exact h.2
  | listObjects start cursor => exact h.2
  | finalize other => exact h.2
  | manifest mailboxId emailId => exact h.2
  | now => exact h.2
  | logRefs => exact h.2
  | note told => exact h.2

theorem objects_length_le (hvalid : attempt.valid host = true) :
    attempt.proof.objects.length ≤ maxAttemptObjects := by
  simp only [RepairAttempt.valid, Bool.and_eq_true, decide_eq_true_eq] at hvalid
  obtain ⟨⟨⟨⟨-, hlength⟩, -⟩, -⟩, -⟩ := hvalid
  rw [DerivedContentProof.objects, List.length_append]
  exact hlength

theorem safeInteger_ofNat {n : ℕ} (h : n ≤ JsNumber.maxSafeInteger) :
    JsNumber.safeInteger (some (n : ℚ)) = some (n : ℤ) := by
  rw [JsNumber.safeInteger, if_pos]
  · rw [Rat.num_natCast]
  · rw [Rat.den_natCast, Rat.num_natCast, Int.natAbs_natCast]
    simpa using h

/-- The mailbox can account for the objects of an attempt. -/
theorem exists_accountFor (hvalid : attempt.valid host = true) :
    ∃ counts : CleanupCounts, counts.accountFor attempt.proof.objects = true := by
  have hlength := objects_length_le hvalid
  rw [maxAttemptObjects] at hlength
  have hzero := safeInteger_ofNat (n := 0) (by decide)
  have hcount : JsNumber.safeInteger (attempt.proof.objects.length : ℚ) =
      some attempt.proof.objects.length := by
    refine safeInteger_ofNat ?_
    rw [JsNumber.maxSafeInteger]
    omega
  refine ⟨⟨some attempt.proof.objects.length, some 0, some 0⟩, ?_⟩
  rw [CleanupCounts.accountFor, hcount]
  simp [JsNumber.safeInteger]

/-- Every call can be served. -/
theorem LedgerOp.exists_serves (hvalid : attempt.valid host = true) (op : LedgerOp)
    (w : LedgerWorld) : ∃ answer w', op.Serves host attempt w answer w' := by
  cases op with
  | get key =>
      cases hstored : w.bucket key with
      | none => exact ⟨_, _, rfl, .inl ⟨hstored, rfl⟩⟩
      | some text => exact ⟨_, _, rfl, .inr ⟨text, hstored, rfl⟩⟩
  | put key value condition =>
      by_cases hholds : condition.Holds (w.bucket key)
      · exact ⟨_, _, .inl ⟨hholds, rfl, rfl⟩⟩
      · exact ⟨_, _, .inr ⟨hholds, rfl, rfl⟩⟩
  | delete key => exact ⟨_, _, rfl, rfl⟩
  | enqueue mailboxId request =>
      obtain ⟨counts, hcounts⟩ := exists_accountFor hvalid
      exact ⟨_, _, ⟨counts, rfl, fun _ => hcounts⟩, rfl⟩
  | list start cursor => exact ⟨_, _, ⟨⟨[attempt.pendingKey], false, none⟩, rfl,
      List.mem_singleton_self _⟩, rfl⟩
  | listObjects start cursor => exact ⟨some ⟨[], false, none⟩, _, rfl, rfl⟩
  | finalize other => exact ⟨_, _, ⟨.committed, rfl, fun _ => RepairTerminal.noConfusion⟩, rfl⟩
  | manifest mailboxId emailId => exact ⟨some .null, _, rfl, rfl⟩
  | now =>
      refine ⟨_, _, ⟨(host.dateParse attempt.createdAt).getD 0 + repairAttemptGraceMs, rfl,
        fun createdAt hcreatedAt => ?_⟩, rfl⟩
      rw [hcreatedAt, Option.getD_some]
      omega
  | logRefs => exact ⟨_, _, rfl, rfl⟩
  | note told => exact ⟨_, _, rfl, rfl⟩

/-! ### A run that is served -/

/-- The program ends when its calls are served. -/
abbrev RepairEnds (host : HostRuntime) (attempt : RepairAttempt) (Q : α → LedgerWorld → Prop)
    (p : LedgerProg α) (w : LedgerWorld) : Prop :=
  p.Ends (LedgerOp.Serves host attempt) Q w

/-- It ends with the pending record deleted. -/
abbrev RepairClears (host : HostRuntime) (attempt : RepairAttempt) (p : LedgerProg α)
    (w : LedgerWorld) : Prop :=
  RepairEnds host attempt (fun _ w' => w'.bucket attempt.pendingKey = none) p w

/-- What is stored, as it is read. -/
def storedAt (w : LedgerWorld) (key : String) : Option StoredJson :=
  (w.bucket key).map fun text => ⟨text, jsonOf text true⟩

theorem LedgerOp.Serves.answered (h : op.Serves host attempt w answer w') :
    ∃ value, answer = some value := by
  cases op with
  | get key =>
      obtain ⟨-, ⟨-, rfl⟩ | ⟨text, -, rfl⟩⟩ := h
      · exact ⟨_, rfl⟩
      · exact ⟨_, rfl⟩
  | put key value condition =>
      obtain ⟨-, rfl, -⟩ | ⟨-, rfl, -⟩ := h
      · exact ⟨_, rfl⟩
      · exact ⟨_, rfl⟩
  | enqueue mailboxId request =>
      obtain ⟨⟨counts, rfl, -⟩, -⟩ := h
      exact ⟨_, rfl⟩
  | list start cursor =>
      obtain ⟨⟨page, rfl, -⟩, -⟩ := h
      exact ⟨_, rfl⟩
  | finalize other =>
      obtain ⟨⟨terminal, rfl, -⟩, -⟩ := h
      exact ⟨_, rfl⟩
  | now =>
      obtain ⟨⟨now, rfl, -⟩, -⟩ := h
      exact ⟨_, rfl⟩
  | listObjects start cursor => exact Option.isSome_iff_exists.mp h.1
  | manifest mailboxId emailId => exact Option.isSome_iff_exists.mp h.1
  | delete key => exact ⟨_, h.1⟩
  | logRefs => exact ⟨_, h.1⟩
  | note told => exact ⟨_, h.1⟩

section

variable (hvalid : attempt.valid host = true)
include hvalid

/-- **The rule of a call** that is served. -/
theorem ends_call {f : op.Value → Throwing β} {Q : Option β → LedgerWorld → Prop}
    (hnext : ∀ value w', op.Serves host attempt w (some value) w' →
      RepairEnds host attempt Q (f value).run w') :
    RepairEnds host attempt Q (call op >>= f).run w := by
  refine ⟨LedgerOp.exists_serves hvalid op w, fun answer w' hserves => ?_⟩
  obtain ⟨value, rfl⟩ := hserves.answered
  exact hnext value w' hserves

theorem readJson_ends (key : String) :
    RepairEnds host attempt (fun o w' => w' = w ∧ o = some (storedAt w key))
      (readJson key).run w := by
  refine ⟨LedgerOp.exists_serves hvalid _ w, fun answer w' hserves => ?_⟩
  obtain ⟨rfl, ⟨hnone, rfl⟩ | ⟨text, hsome, rfl⟩⟩ := hserves
  · exact ⟨rfl, by rw [storedAt, hnone]; rfl⟩
  · exact ⟨rfl, by rw [storedAt, hsome]; rfl⟩

theorem delete_ends :
    RepairClears host attempt
      (do call (.delete attempt.pendingKey); return true : Throwing Bool).run w := by
  refine ends_call hvalid fun _ w' hserves => ?_
  obtain ⟨-, rfl⟩ := hserves
  exact Bucket.set_self ..

theorem finishAttempt_ends (resolution : RepairResolution) :
    RepairClears host attempt
      (finishAttempt attempt.pendingKey attempt resolution).run w := by
  cases resolution with
  | owned => exact delete_ends hvalid
  | discarded =>
      refine Prog.Ends.bindReturned ?_
      rw [enqueueDiscardedAttemptCleanup]
      split
      · exact ⟨true, rfl, delete_ends hvalid⟩
      · refine ⟨LedgerOp.exists_serves hvalid _ w, fun answer w' hserves => ?_⟩
        obtain ⟨⟨counts, rfl, hcounts⟩, rfl⟩ := hserves
        refine ⟨_, rfl, ?_⟩
        rw [hcounts rfl]
        exact delete_ends hvalid

theorem resolveAndFinish_ends (resolution : RepairResolution)
    (hnone : w.bucket attempt.resolvedKey = none) :
    RepairClears host attempt
      (resolveAndFinish host attempt.pendingKey attempt resolution).run w := by
  refine Prog.Ends.bindLift (Prog.Ends.bind ?_)
  rw [resolveRepairAttempt, if_pos hvalid]
  refine ⟨LedgerOp.exists_serves hvalid _ w, fun answer w₁ hserves => ?_⟩
  obtain ⟨-, rfl, rfl⟩ | ⟨hholds, -⟩ := hserves
  · refine ⟨LedgerOp.exists_serves hvalid _ _, fun answer w₂ _ => ?_⟩
    exact finishAttempt_ends hvalid resolution
  · exact absurd hnone hholds

/-- A resolution that is stored is the one that is found. -/
theorem storedResolution_of_durable {resolution : RepairResolution}
    (hdurable : Durable attempt resolution w) :
    storedResolution host attempt (storedAt w attempt.resolvedKey) = some resolution := by
  rw [storedAt, hdurable, Option.map_some, storedResolution, Option.bind_some, resolvedText,
    jsonOf_stringify (plain_resolutionJson resolution hvalid),
    readResolution_resolutionJson resolution hvalid, Option.filter_some,
    if_pos (by simp [resolutionMatchesAttempt]), Option.map_some]

theorem processAttempt_ends (hinv : RepairInv attempt w) :
    RepairClears host attempt
      (processAttempt host attempt.pendingKey attempt).run w := by
  refine Prog.Ends.bindReturned ((readJson_ends hvalid _).mono fun o w₁ ⟨hw₁, ho⟩ => ?_)
  obtain rfl := hw₁
  refine ⟨_, ho, ?_⟩
  rcases hinv.resolved with hnone | ⟨resolution, hdurable⟩
  · have hstored : storedResolution host attempt (storedAt w₁ attempt.resolvedKey) = none := by
      rw [storedAt, hnone]
      rfl
    rw [hstored]
    refine ends_call hvalid fun now w₂ hserves => ?_
    obtain ⟨⟨_, hnow, hgrace⟩, rfl⟩ := hserves
    cases hnow
    have hwaited : ((host.dateParse attempt.createdAt).any fun createdAt =>
        decide (now - createdAt < repairAttemptGraceMs)) = false := by
      cases hdate : host.dateParse attempt.createdAt with
      | none => rfl
      | some createdAt =>
          exact decide_eq_false (not_lt.mpr (hgrace createdAt hdate))
    rw [if_neg (by rw [hwaited]; exact Bool.false_ne_true)]
    refine ends_call hvalid fun terminal w₃ hserves => ?_
    obtain ⟨⟨_, hanswer, hterminal⟩, rfl⟩ := hserves
    cases hanswer
    cases terminal with
    | committed => exact resolveAndFinish_ends hvalid .owned hnone
    | abandoned => exact resolveAndFinish_ends hvalid .discarded hnone
    | rejected => exact resolveAndFinish_ends hvalid .discarded hnone
    | other => exact absurd rfl (hterminal rfl)
  · rw [storedResolution_of_durable hvalid hdurable]
    exact finishAttempt_ends hvalid resolution

/-- The attempt is finished when its key is reconciled. -/
theorem reconcileAttempt_ends (hinv : RepairInv attempt w) :
    RepairClears host attempt
      (reconcileAttempt host attempt.pendingKey).run w := by
  refine Prog.Ends.bindLift ((readJson_ends hvalid _).mono fun o w₁ ⟨hw₁, ho⟩ => ?_)
  obtain rfl := hw₁
  obtain rfl := ho
  rcases hinv.pending with hnone | hpending
  · rw [Option.join_some, storedAt, hnone]
    exact hnone
  · have hread : ((storedAt w₁ attempt.pendingKey).bind fun pending =>
        readAttempt host pending.value) = some attempt := by
      rw [storedAt, hpending, Option.map_some, Option.bind_some, pendingText,
        jsonOf_stringify (plain_attemptJson hvalid), readAttempt_attemptJson hvalid]
    rw [Option.join_some, hread]
    dsimp only
    rw [if_neg (not_not.mpr rfl)]
    refine Prog.Ends.bindLift ((processAttempt_ends hvalid hinv).mono fun o w₂ hdeleted => ?_)
    cases o with
    | some resolved => exact hdeleted
    | none =>
        refine ends_call hvalid fun _ w₃ hserves => ?_
        obtain ⟨-, rfl⟩ := hserves
        exact hdeleted

/-- No key of the page stops the run. -/
theorem reconcileAttempt_returns (key : String) :
    RepairEnds host attempt (fun o _ => ∃ resolved, o = some resolved)
      (reconcileAttempt host key).run w := by
  refine Prog.Ends.bindLift ((Prog.ends_of_answers (LedgerOp.exists_serves hvalid) _ w).mono
    fun pending w₁ _ => ?_)
  split
  · exact ⟨false, rfl⟩
  split
  · exact ⟨false, rfl⟩
  refine Prog.Ends.bindLift ((Prog.ends_of_answers (LedgerOp.exists_serves hvalid) _ w₁).mono
    fun o w₂ _ => ?_)
  cases o with
  | some resolved => exact ⟨resolved, rfl⟩
  | none => exact ends_call hvalid fun _ _ _ => ⟨false, rfl⟩

end

/-! ### What a run does not write -/

/-- The operation does not write the pending record. -/
def LeavesPending (attempt : RepairAttempt) : LedgerOp → Prop
  | .put key _ _ => key ≠ attempt.pendingKey
  | _ => True

theorem LeavesPending.serves (h : LeavesPending attempt op)
    (hserves : op.Serves host other w answer w') (hnone : w.bucket attempt.pendingKey = none) :
    w'.bucket attempt.pendingKey = none := by
  cases op with
  | put key value condition =>
      obtain ⟨-, -, rfl⟩ | ⟨-, -, rfl⟩ := hserves
      · exact (Bucket.set_of_ne (Ne.symm h) _ _).trans hnone
      · exact hnone
  | delete key =>
      obtain ⟨-, rfl⟩ := hserves
      by_cases hkey : attempt.pendingKey = key
      · rw [hkey]
        exact Bucket.set_self ..
      · exact (Bucket.set_of_ne hkey _ _).trans hnone
  | get key =>
      obtain ⟨rfl, -⟩ := hserves
      exact hnone
  | _ =>
      obtain ⟨-, rfl⟩ := hserves
      exact hnone

theorem readJson_calls (key : String) : (readJson key).run.Calls (LeavesPending attempt) := by
  refine calls_call trivial fun answer => ?_
  cases answer with
  | absent => exact trivial
  | found text readable => exact trivial

theorem finishAttempt_calls (key : String) (other : RepairAttempt)
    (resolution : RepairResolution) :
    (finishAttempt key other resolution).run.Calls (LeavesPending attempt) := by
  cases resolution with
  | owned => exact calls_call trivial fun _ => trivial
  | discarded =>
      refine Prog.Calls.bindThrowing ?_ fun cleaned => ?_
      · rw [enqueueDiscardedAttemptCleanup]
        split
        · exact trivial
        · exact calls_call trivial fun _ => trivial
      · split
        · exact calls_call trivial fun _ => trivial
        · exact trivial

theorem resolveAndFinish_calls (key : String) (other : RepairAttempt)
    (resolution : RepairResolution) :
    (resolveAndFinish host key other resolution).run.Calls (LeavesPending attempt) := by
  refine Prog.Calls.bindLift (Prog.Calls.bind ?_ fun durable => ?_) fun durable => ?_
  · rw [resolveRepairAttempt]
    split
    · refine Prog.Calls.bind ⟨(pendingKey_ne_resolvedKey attempt other).symm, fun _ => trivial⟩
        fun written => ?_
      split
      · exact trivial
      · exact (readJson_calls _).bind fun _ => trivial
    · exact trivial
  · split
    · exact ⟨trivial, fun _ => trivial⟩
    · exact trivial
  · split
    · exact finishAttempt_calls key other resolution
    · exact trivial

theorem processAttempt_calls (key : String) (other : RepairAttempt) :
    (processAttempt host key other).run.Calls (LeavesPending attempt) := by
  refine (readJson_calls _).bindThrowing fun existing => ?_
  split
  · exact finishAttempt_calls key other _
  · refine calls_call trivial fun now => ?_
    split
    · exact trivial
    · refine calls_call trivial fun terminal => ?_
      cases terminal with
      | committed => exact resolveAndFinish_calls key other .owned
      | abandoned => exact resolveAndFinish_calls key other .discarded
      | rejected => exact resolveAndFinish_calls key other .discarded
      | other => exact trivial

theorem reconcileAttempt_calls (key : String) :
    (reconcileAttempt host key).run.Calls (LeavesPending attempt) := by
  refine (readJson_calls _).bindLift fun pending => ?_
  split
  · exact trivial
  split
  · exact trivial
  refine (processAttempt_calls key _).bindLift fun o => ?_
  split
  · exact trivial
  · exact calls_call trivial fun _ => trivial

theorem reconcileAttempts_calls (keys : List String) :
    (reconcileAttempts host keys).run.Calls (LeavesPending attempt) := by
  induction keys with
  | nil => exact trivial
  | cons key keys ih =>
      exact (reconcileAttempt_calls key).bindThrowing fun _ => ih.bindThrowing fun _ => trivial

/-- A record that is deleted stays so. -/
theorem stays_deleted (hvalid : attempt.valid host = true) {p : LedgerProg α}
    (hcalls : p.Calls (LeavesPending attempt)) (hnone : w.bucket attempt.pendingKey = none) :
    RepairClears host attempt p w :=
  hcalls.ends (I := fun w => w.bucket attempt.pendingKey = none) (LedgerOp.exists_serves hvalid)
    (fun _ _ _ _ hleaves hserves hnone => hleaves.serves hserves hnone) hnone

/-! ### A later run -/

/-- What others and a worker alone have done since. -/
theorem since_forgotten (hsince : Relation.ReflTransGen (RepairStep attempt) w w') :
    (∀ resolution, Durable attempt resolution w → Durable attempt resolution w') ∧
    (Cleaned attempt w → Cleaned attempt w') ∧
    (w.bucket attempt.pendingKey ≠ none → w'.bucket attempt.pendingKey = none →
      ∃ resolution, Durable attempt resolution w' ∧
        (resolution = .discarded → Cleaned attempt w')) := by
  induction hsince with
  | refl => exact ⟨fun _ h => h, id, fun hsome hnone => absurd hnone hsome⟩
  | @tail w₁ w₂ _ hstep ih =>
      obtain ⟨hdurable, hcleaned, hforgotten⟩ := ih
      have hkept : Cleaned attempt w₁ → Cleaned attempt w₂ := fun h =>
        known_cleaned True w₁ w₂ hstep (fun _ => h) trivial
      refine ⟨fun resolution h => hstep.durable resolution (hdurable resolution h),
        fun h => hkept (hcleaned h), fun hsome hnone => ?_⟩
      have hbefore : ∃ resolution, Durable attempt resolution w₁ ∧
          (resolution = .discarded → Cleaned attempt w₁) := by
        by_cases hnone₁ : w₁.bucket attempt.pendingKey = none
        · exact hforgotten hsome hnone₁
        · exact hstep.forgotten hnone₁ hnone
      obtain ⟨resolution, hresolved, hclean⟩ := hbefore
      exact ⟨resolution, hstep.durable resolution hresolved, fun h => hkept (hclean h)⟩

section

variable (hvalid : attempt.valid host = true) (hinv : RepairInv attempt w)
include hvalid hinv

theorem reconcileAttempts_ends {keys : List String} (hkeys : attempt.pendingKey ∈ keys) :
    RepairClears host attempt
      (reconcileAttempts host keys).run w := by
  induction keys generalizing w with
  | nil => cases hkeys
  | cons key keys ih =>
      by_cases hkey : attempt.pendingKey = key
      · subst hkey
        refine Prog.Ends.bindReturned (((reconcileAttempt_ends hvalid hinv).and
          (reconcileAttempt_returns hvalid _)).mono fun o w₁ ⟨hdeleted, resolved, ho⟩ => ?_)
        exact ⟨resolved, ho, stays_deleted hvalid
          ((reconcileAttempts_calls keys).bindThrowing fun _ => trivial) hdeleted⟩
      · have hmem : attempt.pendingKey ∈ keys := (List.mem_cons.mp hkeys).resolve_left hkey
        have hkept := (reconcileAttempt_keeps hvalid key (w := w)).ends
          (LedgerOp.exists_serves hvalid) (fun _ _ _ _ h => h.exec) hinv
        refine Prog.Ends.bindReturned ((hkept.and (reconcileAttempt_returns hvalid _)).mono
          fun o w₁ ⟨⟨_, hinv₁, _⟩, resolved, ho⟩ => ⟨resolved, ho, ?_⟩)
        refine Prog.Ends.bind ((ih hinv₁ hmem).mono fun o w₂ hdeleted => ?_)
        cases o with
        | none => exact hdeleted
        | some others => exact hdeleted

/-- **A later run finishes the attempt**, if its page lists it and its calls are served. -/
theorem reconcilePendingInboundRepairAttempts_ends :
    RepairClears host attempt
      (reconcilePendingInboundRepairAttempts host).run w := by
  refine Prog.Ends.bindReturned ((readJson_ends hvalid _).mono fun o w₁ ⟨hw₁, ho⟩ => ?_)
  obtain rfl := hw₁
  refine ⟨_, ho, ends_call hvalid fun page w₂ hserves => ?_⟩
  obtain ⟨⟨_, hpage, hlisted⟩, rfl⟩ := hserves
  cases hpage
  refine Prog.Ends.bind ((reconcileAttempts_ends hvalid hinv hlisted).mono fun o w₃ hdeleted => ?_)
  cases o with
  | none => exact hdeleted
  | some resolved =>
      refine stays_deleted hvalid ?_ hdeleted
      refine Prog.Calls.bindThrowing (by rw [throwUnless]; exact trivial) fun _ => ?_
      refine calls_call trivial fun now => ?_
      refine Prog.Calls.bindThrowing (by rw [orThrow]; exact trivial) fun updatedAt => ?_
      exact calls_call (cursorKey_ne_pendingKey attempt) fun _ => trivial

end

/-! ### Every run -/

/-- What a worker may call. -/
inductive RepairCall
  | persist (other : RepairAttempt)
  | resolve (other : RepairAttempt) (resolution : RepairResolution)
  | reconcile

/-- The call is about the attempt, or about attempts that have other keys. -/
def RepairCall.Fits (attempt : RepairAttempt) : RepairCall → Prop
  | .persist other => Apart attempt other
  | .resolve other _ => Apart attempt other
  | .reconcile => True

def RepairCall.program (host : HostRuntime) : RepairCall → LedgerProg Unit
  | .persist other => (persistPendingRepairAttempt host other).bind fun _ => .done ()
  | .resolve other resolution => (resolveAttempt host other resolution).bind fun _ => .done ()
  | .reconcile => (reconcilePendingInboundRepairAttempts host).run.bind fun _ => .done ()

/-- The programs that workers start. -/
def repairStarts (host : HostRuntime) (attempt : RepairAttempt) (_ : LedgerWorld)
    (p : LedgerProg Unit) : Prop :=
  ∃ repairCall : RepairCall, repairCall.Fits attempt ∧ p = repairCall.program host

theorem RepairCall.keeps (hvalid : attempt.valid host = true) {repairCall : RepairCall}
    (hfits : repairCall.Fits attempt) :
    RepairKeeps attempt (fun _ _ => True) (repairCall.program host) w := by
  cases repairCall with
  | persist other => exact (persistPendingRepairAttempt_keeps hfits).bind
  | resolve other resolution =>
      exact Prog.Keeps.bind ((resolveAttempt_keeps hvalid hfits resolution).mono
        fun _ _ _ => trivial)
  | reconcile => exact (reconcilePendingInboundRepairAttempts_keeps hvalid).bind

/-- Two resolutions of an attempt are not both stored. -/
theorem Durable.unique {resolution resolution' : RepairResolution}
    (h : Durable attempt resolution w) (h' : Durable attempt resolution' w)
    (hvalid : attempt.valid host = true) : resolution = resolution' := by
  have hstored := storedResolution_of_durable hvalid h
  rw [storedResolution_of_durable hvalid h'] at hstored
  exact (Option.some.inj hstored).symm

/-- **A repair attempt is resolved once, and cleaned before it is forgotten.** -/
theorem repair_attempt_once (host : HostRuntime) (attempt : RepairAttempt)
    (hvalid : attempt.valid host = true) {w : LedgerWorld} (hinv : RepairInv attempt w)
    {pool : Pool LedgerOp (fun op => Option op.Value) Unit LedgerWorld}
    (hpool : Reachable LedgerOp.Exec (repairStarts host attempt) w pool) :
    -- what is stored as the resolution stays, and what is forgotten was resolved and cleaned
    (∀ pool', Relation.ReflTransGen (Turn LedgerOp.Exec (repairStarts host attempt)) pool pool' →
      (∀ text, pool.state.bucket attempt.resolvedKey = some text →
        pool'.state.bucket attempt.resolvedKey = some text) ∧
      (pool.state.bucket attempt.pendingKey ≠ none →
        pool'.state.bucket attempt.pendingKey = none →
        ∃ resolution, Durable attempt resolution pool'.state ∧
          (resolution = .discarded → Cleaned attempt pool'.state))) ∧
    -- callers who have been answered yes have asked for the same resolution
    (∀ resolution resolution', .resolved attempt resolution ∈ pool.state.noted →
      .resolved attempt resolution' ∈ pool.state.noted → resolution = resolution') ∧
    -- the turn that deletes the pending record comes after the resolution and the clean-up
    (∀ pool', Turn LedgerOp.Exec (repairStarts host attempt) pool pool' →
      pool.state.bucket attempt.pendingKey ≠ none →
      pool'.state.bucket attempt.pendingKey = none →
      ∃ resolution, Durable attempt resolution pool.state ∧
        (resolution = .discarded → Cleaned attempt pool.state)) ∧
    -- a later run finishes the attempt, wherever the others have stopped
    (pool.state.bucket attempt.pendingKey ≠ none →
      RepairEnds host attempt (fun _ w' => w'.bucket attempt.pendingKey = none ∧
          ∃ resolution, Durable attempt resolution w' ∧
            (resolution = .discarded → Cleaned attempt w'))
        (reconcilePendingInboundRepairAttempts host).run pool.state) := by
  have hstarts : ∀ s p, RepairInv attempt s → repairStarts host attempt s p →
      RepairKeeps attempt (fun _ _ => True) p s := by
    rintro s p - ⟨repairCall, hfits, rfl⟩
    exact repairCall.keeps hvalid hfits
  have hkeeps := reachable_keeps hstarts hinv hpool
  have hinvPool : RepairInv attempt pool.state := hkeeps.inv
  refine ⟨fun pool' hturns => ?_, fun resolution resolution' hnoted hnoted' => ?_,
    fun pool' hturn hsome hnone => ?_, fun hsome => ?_⟩
  · obtain ⟨-, hsince⟩ := turns_keep hstarts hturns hkeeps
    obtain ⟨hdurable, -, hforgotten⟩ := since_forgotten hsince
    refine ⟨fun text htext => ?_, hforgotten⟩
    rcases hinvPool.resolved with hnone | ⟨resolution, hstored⟩
    · cases hnone.symm.trans htext
    · rw [← htext, hstored]
      exact hdurable resolution hstored
  · exact (hinvPool.noted resolution hnoted).unique (hinvPool.noted resolution' hnoted') hvalid
  · obtain hsame | hstep := turn_keeps hstarts hturn hkeeps
    · exact absurd (hsame ▸ hnone) hsome
    · exact hstep.forgotten hsome hnone
  · have hrun := (reconcilePendingInboundRepairAttempts_keeps hvalid (w := pool.state)).ends
      (LedgerOp.exists_serves hvalid) (fun _ _ _ _ h => h.exec) hinvPool
    refine ((reconcilePendingInboundRepairAttempts_ends hvalid hinvPool).and hrun).mono
      fun _ w' ⟨hdeleted, _, _, hsteps⟩ => ⟨hdeleted, ?_⟩
    exact (since_forgotten hsteps).2.2 hsome hdeleted

/-! ### An attempt that crashes -/

def sampleAttempt : RepairAttempt where
  attemptId := "0b0d2ab4-5c1d-4d7e-9f3a-0123456789ab"
  ingressId := "mail_1"
  mailboxId := "team@example.com"
  expectedGeneration := 1
  markerId := "marker_01"
  commandFingerprint := "0123456789abcdef0123456789abcdef0123456789abcdef0123456789abcdef"
  createdAt := "2025-01-01T00:00:00.000Z"
  proof := ⟨[], [⟨"email-bodies/mail_1/0b0d2ab4-5c1d-4d7e-9f3a-0123456789ab/0.body", 12⟩]⟩

/-- The record of the attempt is written. -/
def persistedLedger : LedgerWorld :=
  emptyLedger.write sampleAttempt.pendingKey (pendingText sampleAttempt)

theorem repairInv_emptyLedger (attempt : RepairAttempt) : RepairInv attempt emptyLedger :=
  ⟨.inl rfl, .inl rfl, nofun⟩

/-- The record is written, and the worker stops: a later run finishes the attempt. -/
theorem repair_attempt_once_sample :
    RepairEnds sampleHost sampleAttempt
      (fun _ w' => w'.bucket sampleAttempt.pendingKey = none ∧
        ∃ resolution, Durable sampleAttempt resolution w' ∧
          (resolution = .discarded → Cleaned sampleAttempt w'))
      (reconcilePendingInboundRepairAttempts sampleHost).run
      persistedLedger := by
  have hvalid : sampleAttempt.valid sampleHost = true := by decide +kernel
  have hpool : Reachable LedgerOp.Exec (repairStarts sampleHost sampleAttempt) emptyLedger
      ⟨persistedLedger, []⟩ := by
    obtain ⟨next, hprogram⟩ : ∃ next, RepairCall.program sampleHost (.persist sampleAttempt) =
        .call (.put sampleAttempt.pendingKey (pendingText sampleAttempt) .absent) next := by
      rw [RepairCall.program, persistPendingRepairAttempt, if_pos hvalid]
      exact ⟨_, rfl⟩
    have hwritten : LedgerOp.Exec
        (.put sampleAttempt.pendingKey (pendingText sampleAttempt) .absent) emptyLedger
        (some true) persistedLedger := ⟨_, .written rfl, rfl⟩
    have hstart : repairStarts sampleHost sampleAttempt emptyLedger (.call _ next) :=
      ⟨.persist sampleAttempt, .inl rfl, hprogram.symm⟩
    have hturn := @Turn.first _ _ _ _ LedgerOp.Exec (repairStarts sampleHost sampleAttempt) _ _ _ _
      hwritten next []
    exact .tail (.tail (.tail .refl (.start emptyLedger [] _ hstart)) hturn)
      (.stop persistedLedger [] [] (next (some true)))
  refine (repair_attempt_once sampleHost sampleAttempt hvalid
    (repairInv_emptyLedger sampleAttempt) hpool).2.2.2 ?_
  have hstored : persistedLedger.bucket sampleAttempt.pendingKey =
      some (pendingText sampleAttempt) :=
    Bucket.set_self emptyLedger.bucket sampleAttempt.pendingKey _
  exact fun hnone => Option.some_ne_none _ (hstored.symm.trans hnone)

end MailPortal.Derived
