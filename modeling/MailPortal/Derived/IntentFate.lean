import MailPortal.Derived.IntentKept

/-!
# One Fate for the Objects of an Attempt

From the moment that an intent is persisted, controllers and sweeps change it by compare-and-set, in
any interleaving and by any clocks, and puts may fail although they were applied. The texts that are
written under its key tell the whole history: one end follows `building`, and what a caller was told
about that end stays true. A sweep asks for a clean-up only when the intent is due for it, and an
intent is deleted after it, unless its projection is resolved.

Main results:

* `persistInboundCleanupIntent_true` : what is accepted is stored, as the beginning of the history.
* `cleanup_intent_fate` : the history, who knows it, the requests and the deletion.
-/

namespace MailPortal.Derived

open Concurrent Json

variable {host : HostRuntime} {intent : CleanupIntent} {w w' : LedgerWorld}
variable {c : CleanupIntent} {now : ℤ}
variable {states : List CleanupIntent}

/-! ### The end of a history -/

/-- Every state that is not `building` has the status of the last one. -/
theorem status_eq_head {last : CleanupIntent}
    (hchain : (last :: states).IsChain fun n c => c.Follows host n) :
    ∀ c ∈ last :: states, c.status ≠ .building → c.status = last.status := by
  induction states generalizing last with
  | nil =>
      intro c hc _
      rw [List.mem_singleton.mp hc]
  | cons previous states ih =>
      obtain ⟨hfollows, hrest⟩ := List.isChain_cons_cons.mp hchain
      intro c hc hended
      rcases List.mem_cons.mp hc with rfl | hc
      · rfl
      · have hprevious := ih hrest c hc hended
        rcases hfollows.moves.status with hbuilding | ⟨habandoned, hlast⟩
        · exact absurd (hprevious.trans hbuilding) hended
        · rw [hprevious, habandoned, hlast]

/-- **There is one end.** -/
theorem IntentHistory.one_end (h : IntentHistory host intent w states) {n : CleanupIntent}
    (hc : c ∈ states) (hn : n ∈ states) (hcEnded : c.status ≠ .building)
    (hnEnded : n.status ≠ .building) : c.status = n.status := by
  cases states with
  | nil => cases hc
  | cons last states =>
      rw [status_eq_head h.chain c hc hcEnded, status_eq_head h.chain n hn hnEnded]

/-- Two ends that have both been written are the same. -/
theorem IntentInv.one_end (hinv : IntentInv host intent w) {status status' : IntentStatus}
    (h : Was host intent status w) (h' : Was host intent status' w) (hended : status ≠ .building)
    (hended' : status' ≠ .building) : status = status' := by
  obtain ⟨states, hhistory⟩ := hinv.history
  obtain ⟨c, hvalid, rfl, hmem⟩ := h
  obtain ⟨n, hvalid', rfl, hmem'⟩ := h'
  exact hhistory.one_end (hhistory.of_written hvalid hmem) (hhistory.of_written hvalid' hmem')
    hended hended'

/-! ### The beginning -/

/-- The intent has just been persisted. -/
structure Persisted (intent : CleanupIntent) (w : LedgerWorld) : Prop where
  texts : w.textsAt intent.key = [intentText intent]
  stored : w.bucket intent.key = some (intentText intent)
  requests : ∀ request answer, (request, answer) ∈ w.requests →
    ¬ (request.emailId = intent.emailId ∧
      request.projectionAttemptId = intent.projectionAttemptId)
  noted : ∀ status, LedgerNote.settled intent.key status ∉ w.noted

theorem Persisted.inv (h : Persisted intent w) (hvalid : intent.valid host = true) :
    IntentInv host intent w := by
  refine ⟨⟨[intent], h.texts, List.isChain_singleton _, rfl, fun c hc => ?_, .inr h.stored⟩,
    fun request answer hmem hemail hattempt => absurd ⟨hemail, hattempt⟩
      (h.requests request answer hmem), fun status hmem => absurd hmem (h.noted status)⟩
  obtain rfl := List.mem_singleton.mp hc
  exact ⟨hvalid, rfl, rfl, rfl, rfl, rfl⟩

/-- Nothing has happened yet for the attempt. -/
structure Untouched (intent : CleanupIntent) (w : LedgerWorld) : Prop where
  texts : w.textsAt intent.key = []
  absent : w.bucket intent.key = none
  requests : ∀ request answer, (request, answer) ∈ w.requests →
    ¬ (request.emailId = intent.emailId ∧
      request.projectionAttemptId = intent.projectionAttemptId)
  noted : ∀ status, LedgerNote.settled intent.key status ∉ w.noted

theorem Untouched.write (h : Untouched intent w) :
    Persisted intent (w.write intent.key (intentText intent)) where
  texts := by rw [textsAt_write_self, h.texts]
  stored := w.write_self ..
  requests := h.requests
  noted := h.noted

/-- **An intent that is accepted is persisted**: it is valid, and it is what is stored. -/
theorem persistInboundCleanupIntent_true (huntouched : Untouched intent w)
    (h : (persistInboundCleanupIntent host intent).Runs LedgerOp.Exec w true w') :
    intent.valid host = true ∧ Persisted intent w' := by
  rw [persistInboundCleanupIntent] at h
  split at h
  case isFalse => cases h.of_done.1
  case isTrue hvalid =>
    refine ⟨hvalid, ?_⟩
    obtain ⟨written, w₁, hput, hread⟩ := Prog.Runs.of_call h
    obtain ⟨answer, w₂, ⟨hget, rfl⟩, hanswer⟩ := Prog.Runs.of_call hread
    rcases exec_put hput with rfl | ⟨-, rfl⟩
    · -- nothing was written, so nothing is found
      cases hget with
      | absent _ => cases hanswer.of_done.1
      | found text _ hstored => cases huntouched.absent.symm.trans hstored
      | failed => cases hanswer.of_done.1
    · have hsame : w' = w.write intent.key (intentText intent) := by
        cases answer with
        | none => exact hanswer.of_done.2
        | some answer => cases answer <;> exact hanswer.of_done.2
      exact hsame ▸ huntouched.write

/-- A controller that is created for the intent holds it. -/
theorem IntentInv.held (hinv : IntentInv host intent w) :
    Held host intent (.ofIntent intent) w := by
  obtain ⟨states, hhistory⟩ := hinv.history
  have hmem := List.mem_of_getLast? hhistory.first
  obtain ⟨hvalid, hsame⟩ := hhistory.valid intent hmem
  exact ⟨rfl, fun _ => ⟨rfl, hvalid, hsame, hhistory.mem_written hmem⟩⟩

/-! ### Every run -/

/-- What may start: a controller of the intent with any calls, a sweep with any clock, and what
anybody else does. -/
inductive IntentStarts (host : HostRuntime) (intent : CleanupIntent) :
    LedgerWorld → LedgerProg Unit → Prop
  | controller (w : LedgerWorld) (methods : List ControllerCall) :
      IntentStarts host intent w (runController host (.ofIntent intent) methods)
  | sweep (w : LedgerWorld) (supported : Bool) (now : ℤ) :
      IntentStarts host intent w
        ((reconcileInboundCleanupIntents host supported now).run.bind fun _ => .done ())
  | other (w : LedgerWorld) (p : LedgerProg Unit) (hcalls : p.Calls (OtherOp intent)) :
      IntentStarts host intent w p

theorem IntentStarts.keeps {p : LedgerProg Unit} (hinv : IntentInv host intent w)
    (h : IntentStarts host intent w p) : IntentKeeps host intent (fun _ _ => True) p w := by
  cases h with
  | controller methods => exact runController_keeps hinv.held methods
  | sweep supported now => exact (reconcileInboundCleanupIntents_keeps supported now).bind
  | other _ hcalls => exact keeps_of_calls hcalls (fun _ hop => intent_permits_other hop) w

/-- What has been written and told is kept. -/
theorem since_kept (h : Relation.ReflTransGen (IntentStep host intent) w w') :
    (∀ status, Was host intent status w → Was host intent status w') ∧
      ∀ note ∈ w.noted, note ∈ w'.noted := by
  induction h with
  | refl => exact ⟨fun _ h => h, fun _ h => h⟩
  | tail _ hstep ih =>
      obtain ⟨hwas, hnoted⟩ := ih
      exact ⟨fun status h => hstep.was (hwas status h),
        fun note h => hstep.noted note (hnoted note h)⟩

/-- **The derived objects of an attempt have one fate.** -/
theorem cleanup_intent_fate (host : HostRuntime) (intent : CleanupIntent)
    (hvalid : intent.valid host = true) {w : LedgerWorld} (hpersisted : Persisted intent w)
    {pool : Pool LedgerOp (fun op => Option op.Value) Unit LedgerWorld}
    (hpool : Reachable LedgerOp.Exec (IntentStarts host intent) w pool) :
    -- every write follows the one before, every state is valid, and there is one end
    (∃ states, IntentHistory host intent pool.state states ∧
      ∀ c ∈ states, ∀ n ∈ states, c.status ≠ .building → n.status ≠ .building →
        c.status = n.status) ∧
    -- after a method that settles the intent has returned, no sweep abandons it
    (∀ status, status = .commandReady ∨ status = .projectionResolved →
      .settled intent.key status ∈ pool.state.noted →
      ∀ pool', Relation.ReflTransGen (Turn LedgerOp.Exec (IntentStarts host intent)) pool pool' →
        ¬ Was host intent .abandoned pool'.state) ∧
    -- a clean-up is asked for when the intent is abandoned, or its command has been resolved
    (∀ request answer, (request, answer) ∈ pool.state.requests →
      request.emailId = intent.emailId →
      request.projectionAttemptId = intent.projectionAttemptId →
      CleanupDue host intent pool.state) ∧
    -- the turn that deletes the intent comes after the clean-up, or the projection is resolved
    (∀ pool', Turn LedgerOp.Exec (IntentStarts host intent) pool pool' →
      pool.state.bucket intent.key ≠ none → pool'.state.bucket intent.key = none →
      Deletable host intent pool.state) := by
  have hstarts : ∀ s p, IntentInv host intent s → IntentStarts host intent s p →
      IntentKeeps host intent (fun _ _ => True) p s := fun _ _ hinv hstart => hstart.keeps hinv
  have hkeeps := reachable_keeps hstarts (hpersisted.inv hvalid) hpool
  have hinv : IntentInv host intent pool.state := hkeeps.inv
  refine ⟨?_, fun status hstatus hnoted pool' hturns habandoned => ?_, hinv.requests,
    fun pool' hturn hsome hnone => ?_⟩
  · obtain ⟨states, hhistory⟩ := hinv.history
    exact ⟨states, hhistory, fun c hc n hn => hhistory.one_end hc hn⟩
  · obtain ⟨hkeeps', hsince⟩ := turns_keep hstarts hturns hkeeps
    have hinv' : IntentInv host intent pool'.state := hkeeps'.inv
    have hwas := hinv'.noted status ((since_kept hsince).2 _ hnoted)
    rcases hstatus with rfl | rfl
    · cases hinv'.one_end hwas habandoned (by decide) (by decide)
    · cases hinv'.one_end hwas habandoned (by decide) (by decide)
  · obtain hsame | hstep := turn_keeps hstarts hturn hkeeps
    · exact absurd (hsame ▸ hnone) hsome
    · exact hstep.deleted hsome hnone

/-! ### A resolved projection -/

/-- What is stored is read. -/
theorem readJson_runs {key text : String} (h : w.bucket key = some text) :
    (readJson key).run.Runs LedgerOp.Exec w (some (some ⟨text, jsonOf text true⟩)) w :=
  .call ⟨.found text true h, rfl⟩ (.done _ _)

theorem exec_runs {op : LedgerOp} {value : op.Value} (h : op.Exec w (some value) w') :
    (call op).run.Runs LedgerOp.Exec w (some value) w' := call_runs h

theorem isStoredIntent_stored (h : c.valid host = true) :
    isStoredIntent host (some ⟨intentText c, jsonOf (intentText c) true⟩) (intentText c) =
      true := by
  rw [isStoredIntent, Option.any_some, intentText, jsonOf_stringify (plain_intentJson h),
    readIntent_intentJson h, decide_eq_true rfl]
  rfl

/-- A transition of the intent that is stored, when nobody disturbs it. -/
theorem transition_runs {f : CleanupIntent → CleanupIntent} (hc : c.valid host = true)
    (hn : (f c).valid host = true) (hrevision : (f c).revision = c.revision + 1)
    (hstored : w.bucket c.key = some (intentText c)) :
    (transitionInboundCleanupIntent host (.ofIntent c) fun c => return f c).run.Runs LedgerOp.Exec w
      (some (.ofIntent (f c))) (w.write c.key (intentText (f c))) := by
  refine (readJson_runs hstored).bindReturned ?_
  have hfilter : (some (⟨intentText c, jsonOf (intentText c) true⟩ : StoredJson)).filter
      (fun stored => isStoredIntent host (some stored)
        (stringify (IntentValue.ofIntent c).value)) =
      some ⟨intentText c, jsonOf (intentText c) true⟩ := by
    rw [Option.filter_some, if_pos]
    exact isStoredIntent_stored hc
  rw [hfilter, orThrow_some_bind]
  have hnext : ((f c).valid host && decide ((f c).revision = c.revision + 1)) = true := by
    rw [hn, decide_eq_true hrevision]
    rfl
  have hput : LedgerOp.Exec (.put c.key (intentText (f c)) (.unchanged (intentText c))) w
      (some true) (w.write c.key (intentText (f c))) := ⟨true, .written hstored, rfl⟩
  refine Prog.Runs.bindReturned (.done (some (f c)) w) ?_
  rw [show (IntentValue.ofIntent c).intent = c from rfl, hnext, throwUnless_true_bind]
  refine (exec_runs hput).bindLift ((readJson_runs (w.write_self ..)).bindReturned ?_)
  rw [isStoredIntent_stored hn, throwUnless_true_bind]
  exact .done _ _

/-- The answer of a controller whose projection is resolved. -/
def resolvedLedger (c : CleanupIntent) (w : LedgerWorld) : LedgerWorld :=
  { w.write c.key (intentText (projectionResolved c)) with
    noted := .settled c.key .projectionResolved :: w.noted }

/-- A controller resolves the projection, when nobody disturbs it. -/
theorem resolveProjection_runs (hc : c.valid host = true)
    (hn : (projectionResolved c).valid host = true) (hbuilding : c.status = .building)
    (hstored : w.bucket c.key = some (intentText c))
    (hlease : leaseHolds host c.leaseUntil now = true) :
    (runController host (.ofIntent c) [.resolveProjection]).Runs LedgerOp.Exec w ()
      (resolvedLedger c w) := by
  have hnow : LedgerOp.Exec .now w (some now) w := rfl
  have hwritable : (assertWritable host c).run.Runs LedgerOp.Exec w (some ()) w := by
    rw [assertWritable, decide_eq_true hbuilding, throwUnless_true_bind]
    refine (exec_runs hnow).bindReturned ?_
    rw [hlease]
    exact .done _ _
  have hnoted : LedgerOp.Exec (.note (.settled c.key .projectionResolved))
      (w.write c.key (intentText (projectionResolved c))) (some ()) (resolvedLedger c w) := rfl
  have hmethod : (ControllerCall.method host (.ofIntent c) .resolveProjection).run.Runs
      LedgerOp.Exec w (some (.ofIntent (projectionResolved c))) (resolvedLedger c w) :=
    hwritable.bindReturned ((transition_runs hc hn rfl hstored).bindReturned
      ((exec_runs hnoted).bindReturned (.done _ _)))
  exact Prog.Runs.bind hmethod (.done () _)

/-- A controller abandons the attempt, when nobody disturbs it. -/
theorem abandon_runs {abandonedAt : String} (hc : c.valid host = true)
    (hn : (abandonedAtTime abandonedAt c).valid host = true) (hbuilding : c.status = .building)
    (hstored : w.bucket c.key = some (intentText c)) (hnow : toISOString now = some abandonedAt) :
    (runController host (.ofIntent c) [.abandon]).Runs LedgerOp.Exec w ()
      (w.write c.key (intentText (abandonedAtTime abandonedAt c))) := by
  have hclock : LedgerOp.Exec .now w (some now) w := rfl
  have hmethod : (ControllerCall.method host (.ofIntent c) .abandon).run.Runs LedgerOp.Exec w
      (some (.ofIntent (abandonedAtTime abandonedAt c)))
      (w.write c.key (intentText (abandonedAtTime abandonedAt c))) := by
    rw [ControllerCall.method, if_pos (show (IntentValue.ofIntent c).intent.status = .building from
      hbuilding)]
    refine (exec_runs hclock).bindReturned ?_
    rw [hnow, orThrow_some_bind]
    exact transition_runs hc hn rfl hstored
  exact Prog.Runs.bind hmethod (.done () _)

/-- The intent is no longer stored. -/
def withoutIntent (c : CleanupIntent) (w : LedgerWorld) : LedgerWorld :=
  { w with bucket := w.bucket.set c.key none }

section

variable (hc : c.valid host = true) (hstatus : c.status = .projectionResolved)
  (hkey : startsWith c.key intentPendingPrefix = true)
  (hstored : w.bucket c.key = some (intentText c))
include hc hstatus hkey hstored

/-- A sweep that finds the intent resolved deletes it, and asks for no clean-up. -/
theorem sweepKeys_resolved_runs (now : ℤ) :
    (sweepKeys host true now [c.key]).Runs LedgerOp.Exec w 1 (withoutIntent c w) := by
  have hdeleted : LedgerOp.Exec (.delete c.key) w (some ()) (withoutIntent c w) :=
    ⟨_, .deleted, rfl⟩
  have hsweepKey : (sweepKey host true now c.key).Runs LedgerOp.Exec w true
      (withoutIntent c w) := by
    rw [sweepKey, if_pos hkey]
    refine Prog.Runs.bind (a := some true) ((readJson_runs hstored).bindReturned ?_) (.done _ _)
    rw [Option.bind_some, intentText, jsonOf_stringify (plain_intentJson hc),
      readIntent_intentJson hc, Option.map_some]
    dsimp only
    rw [if_neg (not_not.mpr rfl), sweepIntent, hstatus]
    exact (exec_runs hdeleted).bindReturned (.done _ _)
  rw [sweepKeys, sweepKeys]
  exact Prog.Runs.bind hsweepKey (.done 1 _)

theorem resolved_sweep_runs (hcursor : w.bucket intentCursorKey = none) {updatedAt : String}
    (hnow : toISOString now = some updatedAt) :
    (reconcileInboundCleanupIntents host true now).run.Runs LedgerOp.Exec w (some ⟨1, 1⟩)
      ((withoutIntent c w).write intentCursorKey (stringify (cursorJson none updatedAt))) := by
  have hread : (readJson intentCursorKey).run.Runs LedgerOp.Exec w (some none) w :=
    .call ⟨.absent hcursor, rfl⟩ (.done _ _)
  have hpage : LedgerOp.Exec (.list intentPendingPrefix (cursorOf none)) w
      (some ⟨[c.key], false, none⟩) w := rfl
  have hcursorKey : (withoutIntent c w).bucket intentCursorKey = none :=
    (Bucket.set_of_ne (intentKey_ne_cursorKey c).symm w.bucket none).trans hcursor
  have hwritten : LedgerOp.Exec (.put intentCursorKey (stringify (cursorJson none updatedAt))
      .absent) (withoutIntent c w) (some true) ((withoutIntent c w).write intentCursorKey
      (stringify (cursorJson none updatedAt))) := ⟨true, .written hcursorKey, rfl⟩
  refine hread.bindReturned ((exec_runs hpage).bindReturned
    ((sweepKeys_resolved_runs hc hstatus hkey hstored now).bindLift ?_))
  rw [show Page.valid (⟨[c.key], false, none⟩ : Page String) = true from rfl,
    throwUnless_true_bind, hnow, orThrow_some_bind]
  exact (exec_runs hwritten).bindReturned (.done _ _)

end

/-! ### An intent that is deleted without a call -/

def sampleIntent : CleanupIntent where
  status := .building
  emailId := "mail_1"
  mailboxId := "team@example.com"
  projectionAttemptId := "0b0d2ab4-5c1d-4d7e-9f3a-0123456789ab"
  revision := 0
  fenceToken := "123e4567-e89b-42d3-a456-426614174001"
  leaseUntil := "2026-07-15T00:20:00.000Z"
  commandFingerprint := none
  abandonedAt := none
  emptyObservedAt := none
  emptyObservations := 0
  createdAt := "2026-07-15T00:00:00.000Z"

/-- When the sample attempt is abandoned. -/
def sampleAbandonedAt : String := "2026-07-15T00:10:00.000Z"

theorem valid_samples : sampleIntent.valid sampleHost = true ∧
    (projectionResolved sampleIntent).valid sampleHost = true ∧
    (abandonedAtTime sampleAbandonedAt sampleIntent).valid sampleHost = true := by
  decide +kernel

theorem valid_sampleIntent : sampleIntent.valid sampleHost = true := valid_samples.1

theorem valid_projectionResolved_sampleIntent :
    (projectionResolved sampleIntent).valid sampleHost = true := valid_samples.2.1

/-- The intent has just been persisted, and nothing else. -/
def persistedIntent : LedgerWorld := emptyLedger.write sampleIntent.key (intentText sampleIntent)

theorem persisted_sampleIntent : Persisted sampleIntent persistedIntent :=
  ⟨textsAt_write_self _ _ _, emptyLedger.write_self .., fun _ _ h => absurd h List.not_mem_nil,
    fun _ => List.not_mem_nil⟩

theorem resolveProjection_sample_runs :
    (runController sampleHost (.ofIntent sampleIntent) [.resolveProjection]).Runs LedgerOp.Exec
      persistedIntent () (resolvedLedger sampleIntent persistedIntent) := by
  have hlease : leaseHolds sampleHost sampleIntent.leaseUntil 0 = true := by decide
  exact resolveProjection_runs valid_sampleIntent valid_projectionResolved_sampleIntent rfl
    persisted_sampleIntent.stored hlease

/-- The controller has resolved the projection. -/
theorem resolvedLedger_reachable : Reachable LedgerOp.Exec (IntentStarts sampleHost sampleIntent)
    persistedIntent ⟨resolvedLedger sampleIntent persistedIntent, [.done ()]⟩ :=
  .head (.start persistedIntent [] _ (.controller _ [.resolveProjection]))
    (resolveProjection_sample_runs.turns [])

/-- The ledger after the attempt was abandoned. -/
def abandonedLedger : LedgerWorld :=
  persistedIntent.write sampleIntent.key
    (intentText (abandonedAtTime sampleAbandonedAt sampleIntent))

/-- The controller has abandoned the attempt. -/
theorem abandonedLedger_reachable : Reachable LedgerOp.Exec (IntentStarts sampleHost sampleIntent)
    persistedIntent ⟨abandonedLedger, [.done ()]⟩ := by
  have hnow : toISOString 1784074200000 = some sampleAbandonedAt := by decide
  have habandoned := abandon_runs valid_sampleIntent valid_samples.2.2 rfl
    persisted_sampleIntent.stored hnow
  exact .head (.start persistedIntent [] _ (.controller _ [.abandon])) (habandoned.turns [])

theorem was_abandonedLedger : Was sampleHost sampleIntent .abandoned abandonedLedger :=
  ⟨_, valid_samples.2.2, rfl, List.mem_cons_self⟩

/-- Who has been told that the projection is resolved, knows that the attempt is not abandoned;
and once it is abandoned, its projection has not been resolved. -/
theorem cleanup_intent_fate_sample :
    ¬ Was sampleHost sampleIntent .abandoned (resolvedLedger sampleIntent persistedIntent) ∧
      ¬ Was sampleHost sampleIntent .projectionResolved abandonedLedger := by
  refine ⟨(cleanup_intent_fate sampleHost sampleIntent valid_sampleIntent persisted_sampleIntent
    resolvedLedger_reachable).2.1 .projectionResolved (.inr rfl) List.mem_cons_self _ .refl, ?_⟩
  obtain ⟨states, hhistory, hend⟩ := (cleanup_intent_fate sampleHost sampleIntent
    valid_sampleIntent persisted_sampleIntent abandonedLedger_reachable).1
  rintro ⟨c, hc, hresolved, hwritten⟩
  obtain ⟨n, hn, habandoned, hwritten'⟩ := was_abandonedLedger
  have hsame := hend c (hhistory.of_written hc hwritten) n (hhistory.of_written hn hwritten')
  rw [hresolved, habandoned] at hsame
  cases hsame (by decide) (by decide)

/-- **A resolved intent is deleted**, and no clean-up has been asked for. -/
theorem resolved_deleted_without_call :
    ∃ pool, Reachable LedgerOp.Exec (IntentStarts sampleHost sampleIntent) persistedIntent pool ∧
      persistedIntent.bucket sampleIntent.key = some (intentText sampleIntent) ∧
      pool.state.bucket sampleIntent.key = none ∧ pool.state.requests = [] := by
  have hstored : (resolvedLedger sampleIntent persistedIntent).bucket
      (projectionResolved sampleIntent).key =
      some (intentText (projectionResolved sampleIntent)) :=
    persistedIntent.write_self sampleIntent.key _
  have hcursor : (resolvedLedger sampleIntent persistedIntent).bucket intentCursorKey = none :=
    (persistedIntent.write_of_ne (intentKey_ne_cursorKey sampleIntent).symm
      (intentText (projectionResolved sampleIntent))).trans
      (emptyLedger.write_of_ne (intentKey_ne_cursorKey sampleIntent).symm _)
  have hnow : toISOString 0 = some "1970-01-01T00:00:00.000Z" := by decide
  have hsweep := resolved_sweep_runs valid_projectionResolved_sampleIntent rfl
    (by decide) hstored hcursor hnow
  refine ⟨_, resolvedLedger_reachable.trans (.head (.start _ _ _ (.sweep _ true 0))
    (Prog.Runs.turns (hsweep.bind (.done () _)) [.done ()])), persisted_sampleIntent.stored, ?_,
    rfl⟩
  have hdeleted : (withoutIntent (projectionResolved sampleIntent)
      (resolvedLedger sampleIntent persistedIntent)).bucket sampleIntent.key = none :=
    Bucket.set_self (resolvedLedger sampleIntent persistedIntent).bucket sampleIntent.key none
  exact (LedgerWorld.write_of_ne (intentKey_ne_cursorKey sampleIntent) _ _).trans hdeleted

end MailPortal.Derived
