import MailPortal.Derived.IntentSweep
import MailPortal.Derived.LedgerRules

/-!
# What may be Done to an Intent

The texts that have been written under the key of an intent are a chain of valid intents: each
follows the one before by a compare-and-set, and after `building` comes one end only. The key holds
the last of them, or nothing once it is deleted.

Main definitions:

* `IntentInv`, `IntentStep` : what always holds, and what a turn may do.
* `OtherOp` : what anybody else may do.
-/

namespace MailPortal.Derived

open Concurrent Json

variable {c n : CleanupIntent} {K : LedgerWorld → Prop}
variable {commandFingerprint key value : String} {op : LedgerOp}

/-! ### Histories -/

/-- The texts that have been written under a key, the last first. -/
def LedgerWorld.textsAt (w : LedgerWorld) (key : String) : List String :=
  (w.written.filter fun entry => entry.1 = key).map Prod.snd

/-- The members that never change. -/
structure CleanupIntent.Same (c n : CleanupIntent) : Prop where
  emailId : n.emailId = c.emailId
  mailboxId : n.mailboxId = c.mailboxId
  projectionAttemptId : n.projectionAttemptId = c.projectionAttemptId
  fenceToken : n.fenceToken = c.fenceToken
  createdAt : n.createdAt = c.createdAt

theorem CleanupIntent.Same.trans {a b : CleanupIntent} (hab : a.Same b) (hbc : b.Same c) :
    a.Same c :=
  ⟨hbc.emailId.trans hab.emailId, hbc.mailboxId.trans hab.mailboxId,
    hbc.projectionAttemptId.trans hab.projectionAttemptId, hbc.fenceToken.trans hab.fenceToken,
    hbc.createdAt.trans hab.createdAt⟩

/-- A status may change from `building`; and an abandoned intent stays so. -/
structure CleanupIntent.Moves (c n : CleanupIntent) : Prop where
  same : c.Same n
  status : c.status = .building ∨ c.status = .abandoned ∧ n.status = .abandoned

/-- **One write after the other.** -/
structure CleanupIntent.Follows (host : HostRuntime) (c n : CleanupIntent) : Prop where
  moves : c.Moves n
  revision : n.revision = c.revision + 1
  valid : n.valid host = true

/-- **The history of an intent**, the last state first. -/
structure IntentHistory (host : HostRuntime) (intent : CleanupIntent) (w : LedgerWorld)
    (states : List CleanupIntent) : Prop where
  texts : w.textsAt intent.key = states.map intentText
  chain : states.IsChain fun n c => c.Follows host n
  first : states.getLast? = some intent
  valid : ∀ c ∈ states, c.valid host = true ∧ intent.Same c
  stored : w.bucket intent.key = none ∨ w.bucket intent.key = states.head?.map intentText

/-! ### The rules -/

/-- An intent of this status has been written under the key. -/
def Was (host : HostRuntime) (intent : CleanupIntent) (status : IntentStatus) (w : LedgerWorld) :
    Prop :=
  ∃ c : CleanupIntent, c.valid host = true ∧ c.status = status ∧
    (intent.key, intentText c) ∈ w.written

/-- A command with this fingerprint has been made ready. -/
def WasReady (host : HostRuntime) (intent : CleanupIntent) (commandFingerprint : String)
    (w : LedgerWorld) : Prop :=
  ∃ c : CleanupIntent, c.valid host = true ∧ c.status = .commandReady ∧
    c.commandFingerprint = some commandFingerprint ∧ (intent.key, intentText c) ∈ w.written

def CleanupIntent.resolvedKey (intent : CleanupIntent) : String :=
  resolvedRepairAttemptKey intent.emailId intent.projectionAttemptId

/-- The repair attempt with this fingerprint has a durable resolution. -/
def ResolutionStored (host : HostRuntime) (intent : CleanupIntent) (commandFingerprint : String)
    (w : LedgerWorld) : Prop :=
  ∃ text resolution attempt, w.bucket intent.resolvedKey = some text ∧
    readResolution host (jsonOf text true) = some (resolution, attempt) ∧
    attempt.ingressId = intent.emailId ∧ attempt.attemptId = intent.projectionAttemptId ∧
    attempt.commandFingerprint = commandFingerprint

/-- The intent is one after which a sweep cleans up. -/
def CleanupDue (host : HostRuntime) (intent : CleanupIntent) (w : LedgerWorld) : Prop :=
  Was host intent .abandoned w ∨ ∃ commandFingerprint, WasReady host intent commandFingerprint w ∧
    ResolutionStored host intent commandFingerprint w

/-- From a cursor on, the pages that have been listed are all there are, with these objects. -/
inductive ListedFully (listed : List Listing) (start : String) :
    Option String → List DerivedObject → Prop
  | last {cursor : Option String} {page : Page DerivedObject}
      (hlisted : ⟨start, cursor, some page⟩ ∈ listed) (hlast : page.truncated = false) :
      ListedFully listed start cursor page.objects
  | more {cursor : Option String} {page : Page DerivedObject} {objects : List DerivedObject}
      (hlisted : ⟨start, cursor, some page⟩ ∈ listed) (hmore : page.truncated = true)
      (hrest : ListedFully listed start page.cursor objects) :
      ListedFully listed start cursor (page.objects ++ objects)

/-- Complete listings have found these objects of the attempt. -/
def FoundFully (intent : CleanupIntent) (objects : List DerivedObject) (w : LedgerWorld) : Prop :=
  ∃ attachments bodies,
    ListedFully w.listed (attachmentPrefixOf intent.emailId intent.projectionAttemptId) none
      attachments ∧
    ListedFully w.listed (bodyPrefixOf intent.emailId intent.projectionAttemptId) none bodies ∧
    objects = attachments ++ bodies

/-- Every object that was found has been handed over in one call that returned. -/
def Covered (intent : CleanupIntent) (objects : List DerivedObject) (w : LedgerWorld) : Prop :=
  FoundFully intent objects w ∧
    (objects = [] ∨ ∃ counts, (intent.cleanupRequest objects, some counts) ∈ w.requests)

/-- **When the intent may be deleted.** -/
inductive Deletable (host : HostRuntime) (intent : CleanupIntent) (w : LedgerWorld) : Prop
  | resolved (h : Was host intent .projectionResolved w)
  | ready (commandFingerprint : String) (h : WasReady host intent commandFingerprint w)
      (hresolution : ResolutionStored host intent commandFingerprint w)
      (objects : List DerivedObject) (hcovered : Covered intent objects w)
  | abandoned (h : Was host intent .abandoned w) (hcovered : Covered intent [] w)

/-- **What always holds** of an intent. -/
structure IntentInv (host : HostRuntime) (intent : CleanupIntent) (w : LedgerWorld) : Prop where
  history : ∃ states, IntentHistory host intent w states
  requests : ∀ request answer, (request, answer) ∈ w.requests →
    request.emailId = intent.emailId →
    request.projectionAttemptId = intent.projectionAttemptId → CleanupDue host intent w
  noted : ∀ status, .settled intent.key status ∈ w.noted → Was host intent status w

/-- **What a turn may do** to an intent. -/
structure IntentStep (host : HostRuntime) (intent : CleanupIntent) (w w' : LedgerWorld) : Prop where
  written : ∀ entry ∈ w.written, entry ∈ w'.written
  listed : ∀ listing ∈ w.listed, listing ∈ w'.listed
  requests : ∀ request ∈ w.requests, request ∈ w'.requests
  noted : ∀ note ∈ w.noted, note ∈ w'.noted
  resolution : ∀ text, w.bucket intent.resolvedKey = some text →
    w'.bucket intent.resolvedKey = some text
  deleted : w.bucket intent.key ≠ none → w'.bucket intent.key = none → Deletable host intent w

/-- What anybody else may do: resolve the repair attempt, and what has to do with other intents. -/
def OtherOp (intent : CleanupIntent) : LedgerOp → Prop
  | .put key _ condition => key ≠ intent.key ∧ (key = intent.resolvedKey → condition = .absent)
  | .delete key => key ≠ intent.key ∧ key ≠ intent.resolvedKey
  | .enqueue _ request => ¬ (request.emailId = intent.emailId ∧
      request.projectionAttemptId = intent.projectionAttemptId)
  | .note (.settled key _) => key ≠ intent.key
  | _ => True

variable {α β : Type} {host : HostRuntime} {intent : CleanupIntent} {w w' : LedgerWorld}

theorem IntentStep.refl : IntentStep host intent w w :=
  ⟨fun _ h => h, fun _ h => h, fun _ h => h, fun _ h => h, fun _ h => h, fun h h' => absurd h' h⟩

abbrev IntentKeeps (host : HostRuntime) (intent : CleanupIntent) (Q : α → LedgerWorld → Prop)
    (p : LedgerProg α) (w : LedgerWorld) : Prop :=
  LedgerKeeps (IntentInv host intent) (IntentStep host intent) Q p w

abbrev IntentPermits (host : HostRuntime) (intent : CleanupIntent) (K : LedgerWorld → Prop)
    (op : LedgerOp) : Prop :=
  Permits LedgerOp.Exec (IntentInv host intent) (IntentStep host intent) K op

/-! ### What lasts -/

section

variable (h : IntentStep host intent w w')
include h

theorem IntentStep.was {status : IntentStatus} (hwas : Was host intent status w) :
    Was host intent status w' :=
  hwas.imp fun _ ⟨hvalid, hstatus, hmem⟩ => ⟨hvalid, hstatus, h.written _ hmem⟩

theorem IntentStep.wasReady (hwas : WasReady host intent commandFingerprint w) :
    WasReady host intent commandFingerprint w' :=
  hwas.imp fun _ ⟨hvalid, hstatus, hfingerprint, hmem⟩ =>
    ⟨hvalid, hstatus, hfingerprint, h.written _ hmem⟩

theorem IntentStep.resolutionStored (hstored : ResolutionStored host intent commandFingerprint w) :
    ResolutionStored host intent commandFingerprint w' := by
  obtain ⟨text, resolution, attempt, htext, hread⟩ := hstored
  exact ⟨text, resolution, attempt, h.resolution text htext, hread⟩

theorem IntentStep.due (hdue : CleanupDue host intent w) : CleanupDue host intent w' :=
  hdue.imp h.was fun ⟨commandFingerprint, hready, hstored⟩ =>
    ⟨commandFingerprint, h.wasReady hready, h.resolutionStored hstored⟩

end

theorem ListedFully.mono {listed listed' : List Listing} {start : String} {cursor : Option String}
    {objects : List DerivedObject} (h : ListedFully listed start cursor objects)
    (hsub : ∀ listing ∈ listed, listing ∈ listed') : ListedFully listed' start cursor objects := by
  induction h with
  | last hlisted hlast => exact .last (hsub _ hlisted) hlast
  | more hlisted hmore _ ih => exact .more (hsub _ hlisted) hmore ih

/-! ### Keys -/

theorem intentKey_ne_resolvedKey (intent other : CleanupIntent) :
    intent.key ≠ other.resolvedKey :=
  append_ne_append 30 (by decide) (by decide) (by decide)

theorem intentKey_ne_cursorKey (intent : CleanupIntent) : intent.key ≠ intentCursorKey := by
  have hne : intent.key ≠ intentCursorKey ++ "" :=
    append_ne_append 40 (by decide) (by decide) (by decide)
  rwa [String.append_empty] at hne

theorem resolvedKey_ne_intentCursorKey (intent : CleanupIntent) :
    intent.resolvedKey ≠ intentCursorKey := by
  have hne : intent.resolvedKey ≠ intentCursorKey ++ "" :=
    append_ne_append 30 (by decide) (by decide) (by decide)
  rwa [String.append_empty] at hne

/-! ### The texts -/

/-- Valid intents with one text are the same. -/
theorem intentText_injective (hc : c.valid host = true) (hn : n.valid host = true)
    (h : intentText c = intentText n) : c = n := by
  have hread := readIntent_intentJson hc
  rw [← jsonOf_stringify (plain_intentJson hc)] at hread
  rw [show stringify (intentJson c) = stringify (intentJson n) from h,
    jsonOf_stringify (plain_intentJson hn), readIntent_intentJson hn] at hread
  exact (Option.some.inj hread).symm

theorem readIntent_jsonOf_false (text : String) : readIntent host (jsonOf text false) = none := rfl

theorem textsAt_write_self (w : LedgerWorld) (key value : String) :
    (w.write key value).textsAt key = value :: w.textsAt key := by
  simp [LedgerWorld.textsAt, LedgerWorld.write]

/-- The texts of other keys are not among those of the intent. -/
theorem textsAt_write_of_ne (h : key ≠ intent.key) :
    (w.write key value).textsAt intent.key = w.textsAt intent.key := by
  rw [LedgerWorld.textsAt, LedgerWorld.write, List.filter_cons_of_neg
    (by rw [decide_eq_true_eq]; exact h), LedgerWorld.textsAt]

namespace IntentHistory

variable {states : List CleanupIntent}

section

variable (h : IntentHistory host intent w states)
include h

/-- What the history holds has been written. -/
theorem mem_written (hc : c ∈ states) : (intent.key, intentText c) ∈ w.written := by
  have htext : intentText c ∈ w.textsAt intent.key := by
    rw [h.texts]
    exact List.mem_map_of_mem hc
  obtain ⟨entry, hentry, htext⟩ := List.mem_map.mp htext
  obtain ⟨hmem, hkey⟩ := List.mem_filter.mp hentry
  rw [← htext, ← of_decide_eq_true hkey]
  exact hmem

/-- What has been written is in the history. -/
theorem of_written (hvalid : c.valid host = true) (hmem : (intent.key, intentText c) ∈ w.written) :
    c ∈ states := by
  have htext : intentText c ∈ w.textsAt intent.key :=
    List.mem_map.mpr ⟨_, List.mem_filter.mpr ⟨hmem, decide_eq_true rfl⟩, rfl⟩
  rw [h.texts] at htext
  obtain ⟨n, hn, heq⟩ := List.mem_map.mp htext
  rwa [intentText_injective hvalid (h.valid n hn).1 heq.symm]

/-- What is found under the key, and is an intent, is the last state. -/
theorem of_found {found : StoredJson} (hfound : Found intent.key (some found) w)
    (hread : readIntent host found.value = some c) :
    states.head? = some c ∧ found.value = intentJson c ∧ found.etag = intentText c := by
  obtain ⟨htext, readable, hvalue⟩ := hfound found rfl
  have hstored := h.stored.resolve_left (by rw [htext]; exact Option.some_ne_none _)
  obtain ⟨n, hhead, hn⟩ := Option.map_eq_some_iff.mp (hstored.symm.trans htext)
  have hvalid := (h.valid n (List.mem_of_mem_head? hhead)).1
  rw [hvalue, ← hn] at hread
  cases readable with
  | false => cases (readIntent_jsonOf_false _).symm.trans hread
  | true =>
      rw [intentText, jsonOf_stringify (plain_intentJson hvalid), readIntent_intentJson hvalid]
        at hread
      cases hread
      refine ⟨hhead, ?_, hn.symm⟩
      rw [hvalue, ← hn, intentText, jsonOf_stringify (plain_intentJson hvalid)]

/-- **A compare-and-set** on the text of the last state goes on with the history. -/
theorem write (hc : c.valid host = true) (hstored : w.bucket intent.key = some (intentText c))
    (hfollows : c.Follows host n) :
    IntentHistory host intent (w.write intent.key (intentText n)) (n :: states) := by
  have hhead : states.head? = some c := by
    have hlast := h.stored.resolve_left (by rw [hstored]; exact Option.some_ne_none _)
    obtain ⟨m, hhead, hm⟩ := Option.map_eq_some_iff.mp (hlast.symm.trans hstored)
    have hvalid := (h.valid m (List.mem_of_mem_head? hhead)).1
    rwa [intentText_injective hvalid hc hm] at hhead
  have hsame := (h.valid c (List.mem_of_mem_head? hhead)).2
  refine ⟨?_, ?_, ?_, ?_, .inr (w.write_self ..)⟩
  · rw [textsAt_write_self, h.texts, List.map_cons]
  · refine List.isChain_cons.mpr ⟨fun m hm => ?_, h.chain⟩
    obtain rfl := Option.some.inj (hhead.symm.trans hm)
    exact hfollows
  · rw [List.getLast?_cons, h.first]
    rfl
  · intro m hm
    rcases List.mem_cons.mp hm with rfl | hm
    · exact ⟨hfollows.valid, hsame.trans hfollows.moves.same⟩
    · exact h.valid m hm

end

end IntentHistory

/-! ### The operations -/

theorem intent_permits_of_eq (h : ∀ w answer w', op.Exec w answer w' → w' = w) :
    IntentPermits host intent K op :=
  permits_of_eq (fun _ => .refl) h

/-- Nothing happens to the intent where its key holds what it held. -/
theorem intentInv_frame (hinv : IntentInv host intent w)
    (htexts : w'.textsAt intent.key = w.textsAt intent.key)
    (hbucket : w'.bucket intent.key = w.bucket intent.key)
    (hstep : IntentStep host intent w w')
    (hrequests : ∀ request answer, (request, answer) ∈ w'.requests →
      request.emailId = intent.emailId →
      request.projectionAttemptId = intent.projectionAttemptId → CleanupDue host intent w)
    (hnoted : ∀ status, .settled intent.key status ∈ w'.noted → Was host intent status w) :
    IntentInv host intent w' := by
  obtain ⟨states, hhistory⟩ := hinv.history
  refine ⟨⟨states, htexts.trans hhistory.texts, hhistory.chain, hhistory.first, hhistory.valid, ?_⟩,
    fun request answer hmem hemail hattempt => ?_, fun status hmem => ?_⟩
  · rw [hbucket]
    exact hhistory.stored
  · exact hstep.due (hrequests request answer hmem hemail hattempt)
  · exact hstep.was (hnoted status hmem)

theorem intent_permits_put_other {condition : R2Condition} (hkey : key ≠ intent.key)
    (hresolved : key = intent.resolvedKey → condition = .absent) :
    IntentPermits host intent K (.put key value condition) := by
  intro w hinv _ answer w' hexec
  rcases exec_put hexec with rfl | ⟨hholds, rfl⟩
  · exact ⟨hinv, .refl⟩
  have hbucket : (w.write key value).bucket intent.key = w.bucket intent.key :=
    w.write_of_ne hkey.symm value
  have hstep : IntentStep host intent w (w.write key value) := by
    refine ⟨fun _ h => List.mem_cons_of_mem _ h, fun _ h => h, fun _ h => h, fun _ h => h,
      fun text htext => ?_, fun hsome hnone => absurd (hbucket.symm.trans hnone) hsome⟩
    by_cases hsame : key = intent.resolvedKey
    · rw [hresolved hsame, hsame, R2Condition.Holds, htext] at hholds
      cases hholds
    · rw [w.write_of_ne (Ne.symm hsame)]
      exact htext
  exact ⟨intentInv_frame hinv (textsAt_write_of_ne hkey) hbucket hstep hinv.requests hinv.noted,
    hstep⟩

theorem intent_permits_delete_other (hkey : key ≠ intent.key)
    (hresolved : key ≠ intent.resolvedKey) :
    IntentPermits host intent K (.delete key) := by
  intro w hinv _ answer w' hexec
  rcases exec_delete hexec with rfl | rfl
  · exact ⟨hinv, .refl⟩
  have hbucket : w.bucket.set key none intent.key = w.bucket intent.key :=
    Bucket.set_of_ne hkey.symm _ _
  have hstep : IntentStep host intent w { w with bucket := w.bucket.set key none } :=
    ⟨fun _ h => h, fun _ h => h, fun _ h => h, fun _ h => h,
      fun text htext => (Bucket.set_of_ne hresolved.symm _ _).trans htext,
      fun hsome hnone => absurd (hbucket.symm.trans hnone) hsome⟩
  exact ⟨intentInv_frame hinv rfl hbucket hstep hinv.requests hinv.noted, hstep⟩

/-- **The intent is deleted** by a worker who knows that it may be. -/
theorem intent_permits_delete (hdeletable : ∀ w, K w → Deletable host intent w) :
    IntentPermits host intent K (.delete intent.key) := by
  intro w hinv hK answer w' hexec
  rcases exec_delete hexec with rfl | rfl
  · exact ⟨hinv, .refl⟩
  have hresolved : w.bucket.set intent.key none intent.resolvedKey =
      w.bucket intent.resolvedKey :=
    Bucket.set_of_ne (intentKey_ne_resolvedKey intent intent).symm w.bucket none
  have hstep : IntentStep host intent w { w with bucket := w.bucket.set intent.key none } :=
    ⟨fun _ h => h, fun _ h => h, fun _ h => h, fun _ h => h, fun _ htext => hresolved.trans htext,
      fun _ _ => hdeletable w hK⟩
  obtain ⟨states, hhistory⟩ := hinv.history
  exact ⟨⟨⟨states, hhistory.texts, hhistory.chain, hhistory.first, hhistory.valid,
    .inl (Bucket.set_self ..)⟩, hinv.requests, hinv.noted⟩, hstep⟩

/-- **The intent changes** from what was read. -/
theorem intent_permits_put (hc : c.valid host = true) (hfollows : c.Follows host n) :
    IntentPermits host intent K (.put intent.key (intentText n) (.unchanged (intentText c))) := by
  intro w hinv _ answer w' hexec
  rcases exec_put hexec with rfl | ⟨hholds, rfl⟩
  · exact ⟨hinv, .refl⟩
  obtain ⟨states, hhistory⟩ := hinv.history
  have hstep : IntentStep host intent w (w.write intent.key (intentText n)) := by
    refine ⟨fun _ h => List.mem_cons_of_mem _ h, fun _ h => h, fun _ h => h, fun _ h => h,
      fun text htext => ?_, fun _ hnone => ?_⟩
    · rw [w.write_of_ne (intentKey_ne_resolvedKey intent intent).symm]
      exact htext
    · cases (w.write_self ..).symm.trans hnone
  exact ⟨⟨⟨n :: states, hhistory.write hc hholds hfollows⟩,
    fun request answer hmem hemail hattempt =>
      hstep.due (hinv.requests request answer hmem hemail hattempt),
    fun status hmem => hstep.was (hinv.noted status hmem)⟩, hstep⟩

theorem intent_permits_enqueue (mailboxId : String) {request : CleanupProofRequest}
    (hdue : ∀ w, K w → request.emailId = intent.emailId →
      request.projectionAttemptId = intent.projectionAttemptId → CleanupDue host intent w) :
    IntentPermits host intent K (.enqueue mailboxId request) := by
  intro w hinv hK answer w' hexec
  obtain rfl : w' = { w with requests := (request, answer) :: w.requests } := hexec
  have hstep : IntentStep host intent w { w with requests := (request, answer) :: w.requests } :=
    ⟨fun _ h => h, fun _ h => h, fun _ h => List.mem_cons_of_mem _ h, fun _ h => h, fun _ h => h,
      fun hsome hnone => absurd hnone hsome⟩
  refine ⟨intentInv_frame hinv rfl rfl hstep (fun other answer' hmem hemail hattempt => ?_)
    hinv.noted, hstep⟩
  rcases List.mem_cons.mp hmem with heq | hmem
  · cases heq
    exact hdue w hK hemail hattempt
  · exact hinv.requests other answer' hmem hemail hattempt

theorem intent_permits_listObjects (start : String) (cursor : Option String) :
    IntentPermits host intent K (.listObjects start cursor) := by
  intro w hinv _ answer w' hexec
  obtain rfl : w' = { w with listed := ⟨start, cursor, answer⟩ :: w.listed } := hexec
  have hstep : IntentStep host intent w
      { w with listed := ⟨start, cursor, answer⟩ :: w.listed } :=
    ⟨fun _ h => h, fun _ h => List.mem_cons_of_mem _ h, fun _ h => h, fun _ h => h, fun _ h => h,
      fun hsome hnone => absurd hnone hsome⟩
  exact ⟨intentInv_frame hinv rfl rfl hstep hinv.requests hinv.noted, hstep⟩

theorem intent_permits_note {told : LedgerNote}
    (h : ∀ w, K w → ∀ status, told = .settled intent.key status → Was host intent status w) :
    IntentPermits host intent K (.note told) := by
  intro w hinv hK answer w' hexec
  obtain rfl : w' = { w with noted := told :: w.noted } := hexec
  have hstep : IntentStep host intent w { w with noted := told :: w.noted } :=
    ⟨fun _ h => h, fun _ h => h, fun _ h => h, fun _ h => List.mem_cons_of_mem _ h, fun _ h => h,
      fun hsome hnone => absurd hnone hsome⟩
  refine ⟨intentInv_frame hinv rfl rfl hstep hinv.requests fun status hmem => ?_, hstep⟩
  rcases List.mem_cons.mp hmem with heq | hmem
  · exact h w hK status heq.symm
  · exact hinv.noted status hmem

/-- What anybody else does keeps the rules. -/
theorem intent_permits_other (h : OtherOp intent op) :
    IntentPermits host intent (fun _ => True) op := by
  cases op with
  | put key value condition => exact intent_permits_put_other h.1 h.2
  | delete key => exact intent_permits_delete_other h.1 h.2
  | enqueue mailboxId request =>
      exact intent_permits_enqueue mailboxId fun _ _ hemail hattempt =>
        absurd ⟨hemail, hattempt⟩ h
  | listObjects start cursor => exact intent_permits_listObjects start cursor
  | note told =>
      refine intent_permits_note fun _ _ status heq => ?_
      subst heq
      exact absurd rfl h
  | get key => exact intent_permits_of_eq fun _ _ _ h => h.2
  | _ => exact intent_permits_of_eq fun _ _ _ h => h

end MailPortal.Derived
