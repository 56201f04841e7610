import MailPortal.Derived.IntentRules

/-!
# The Controller and the Sweep Keep to the Rules

A transition is a compare-and-set on the text that the writer has read, whoever makes it. A sweep
cleans up after an intent that it has read as due, and deletes it when it knows that it may.

Main results:

* `transition_keeps`, `runController_keeps`, `reconcileInboundCleanupIntents_keeps`.
-/

namespace MailPortal.Derived

open Concurrent Json CleanupIntent

variable {α β : Type} {host : HostRuntime} {intent : CleanupIntent} {w w' : LedgerWorld}
variable {current state : IntentValue} {R : CleanupIntent → Prop} {c : CleanupIntent}
  {K : LedgerWorld → Prop} {transition : CleanupIntent → Throwing CleanupIntent}
variable {objects : List DerivedObject}

/-- If the value is of this intent, it is one that has been written. -/
def Holds (host : HostRuntime) (intent : CleanupIntent) (current : IntentValue) (w : LedgerWorld) :
    Prop :=
  current.intent.key = intent.key → current.value = intentJson current.intent ∧
    current.intent.valid host = true ∧ intent.Same current.intent ∧
    (intent.key, intentText current.intent) ∈ w.written

theorem lasting_holds (current : IntentValue) :
    Lasting (IntentStep host intent) (Holds host intent current) := by
  intro w w' hstep h hkey
  obtain ⟨hvalue, hvalid, hsame, hmem⟩ := h hkey
  exact ⟨hvalue, hvalid, hsame, hstep.written _ hmem⟩

/-- What is read under the key of the intent holds. -/
theorem holds_of_found {key : String} {stored : Option StoredJson} (hinv : IntentInv host intent w)
    (hfound : Found key stored w)
    (hread : (stored.bind fun stored => (readIntent host stored.value).map fun found =>
      (⟨found, stored.value⟩ : IntentValue)) = some current) (hkey : key = current.intent.key) :
    Holds host intent current w := by
  intro hsame
  obtain ⟨found, rfl, hvalue⟩ := Option.bind_eq_some_iff.mp hread
  obtain ⟨c, hc, rfl⟩ := Option.map_eq_some_iff.mp hvalue
  obtain ⟨states, hhistory⟩ := hinv.history
  obtain ⟨hhead, hjson, -⟩ := hhistory.of_found (hsame ▸ hkey ▸ hfound) hc
  have hmem := List.mem_of_mem_head? hhead
  obtain ⟨hvalid, hsameIntent⟩ := hhistory.valid c hmem
  exact ⟨hjson, hvalid, hsameIntent, hhistory.mem_written hmem⟩

/-! ### Transitions -/

/-- The function of a transition yields moves that are `R`, and takes no knowledge away. -/
def Transits (host : HostRuntime) (intent : CleanupIntent) (R : CleanupIntent → Prop)
    (c : CleanupIntent) (transition : CleanupIntent → Throwing CleanupIntent) : Prop :=
  ∀ (K : LedgerWorld → Prop), Lasting (IntentStep host intent) K → ∀ w, K w →
    IntentKeeps host intent (fun o w' => K w' ∧ ∀ n, o = some n → c.Moves n ∧ R n)
      (transition c).run w

/-- A function that only computes. -/
theorem transits_pure {f : CleanupIntent → CleanupIntent} (hmoves : c.Moves (f c)) (hR : R (f c)) :
    Transits host intent R c fun c => return f c := by
  refine fun K _ w hK => ⟨hK, fun n hn => ?_⟩
  cases hn
  exact ⟨hmoves, hR⟩

/-- A value that is found by an exact reread is one that has been written. -/
theorem written_of_confirmed (hinv : IntentInv host intent w) {confirmed : Option StoredJson}
    (hfound : Found intent.key confirmed w) {n : CleanupIntent}
    (hconfirmed : isStoredIntent host confirmed (intentText n) = true) :
    (intent.key, intentText n) ∈ w.written := by
  cases confirmed with
  | none => cases hconfirmed
  | some found =>
      obtain ⟨hread, htext⟩ := Bool.and_eq_true_iff.mp hconfirmed
      obtain ⟨c, hc⟩ := Option.isSome_iff_exists.mp hread
      obtain ⟨states, hhistory⟩ := hinv.history
      obtain ⟨hhead, hvalue, -⟩ := hhistory.of_found hfound hc
      rw [hvalue] at htext
      rw [← of_decide_eq_true htext]
      exact hhistory.mem_written (List.mem_of_mem_head? hhead)

/-- **The rule of a transition.** -/
theorem transition_keeps (hlasting : Lasting (IntentStep host intent) K) (hK : K w)
    (hcurrent : Holds host intent current w)
    (htransits : Transits host intent R current.intent transition) :
    IntentKeeps host intent (fun o w' => K w' ∧ ∀ next, o = some next →
        next.intent.key = current.intent.key ∧ R next.intent ∧ Holds host intent next w')
      (transitionInboundCleanupIntent host current transition).run w := by
  have hholds : Lasting (IntentStep host intent) (Holds host intent current) :=
    lasting_holds current
  have hknown := hlasting.and hholds
  refine Prog.Keeps.bindThrowing ((readJson_keeps (fun _ => .refl) hknown ⟨hK, hcurrent⟩ _).mono
    fun o w₁ ⟨⟨hK₁, hcurrent₁⟩, hinv₁, hfound⟩ => ⟨fun _ => ⟨hK₁, fun _ h => by cases h⟩,
      fun stored hsome => ?_⟩)
  cases hfilter : stored.filter fun stored =>
      isStoredIntent host (some stored) (stringify current.value) with
  | none => exact ⟨hK₁, fun _ h => by cases h⟩
  | some found =>
      obtain ⟨rfl, hmatches⟩ := Option.filter_eq_some_iff.mp hfilter
      -- what is stored is the current value, so that its text is the etag
      have hetag : current.intent.key = intent.key →
          found.etag = intentText current.intent := by
        intro hkey
        obtain ⟨hread, htext⟩ := Bool.and_eq_true_iff.mp hmatches
        obtain ⟨c, hc⟩ := Option.isSome_iff_exists.mp hread
        obtain ⟨states, hhistory⟩ := hinv₁.history
        obtain ⟨-, hvalue, hetag⟩ := hhistory.of_found (hkey ▸ hfound _ hsome) hc
        rw [(hcurrent₁ hkey).1, hvalue] at htext
        exact hetag.trans (of_decide_eq_true htext)
      rw [orThrow_some_bind]
      refine Prog.Keeps.bindThrowing ((htransits _ hknown w₁ ⟨hK₁, hcurrent₁⟩).mono
        fun o w₂ ⟨⟨hK₂, hcurrent₂⟩, hnext⟩ => ⟨fun _ => ⟨hK₂, fun _ h => by cases h⟩,
          fun next hsome => ?_⟩)
      obtain ⟨hmoves, hR⟩ := hnext next hsome
      cases hvalid : next.valid host && decide (next.revision = current.intent.revision + 1) with
      | false => exact ⟨hK₂, fun _ h => by cases h⟩
      | true =>
          obtain ⟨hvalid, hrevision⟩ := Bool.and_eq_true_iff.mp hvalid
          have hfollows : current.intent.Follows host next :=
            ⟨hmoves, of_decide_eq_true hrevision, hvalid⟩
          have hkeyNext : next.key = current.intent.key := by
            rw [key, key, hmoves.same.emailId,
              hmoves.same.projectionAttemptId]
          have hpermits : IntentPermits host intent (fun w => K w ∧ Holds host intent current w)
              (.put current.intent.key (intentText next) (.unchanged found.etag)) := by
            by_cases hkey : current.intent.key = intent.key
            · rw [hkey, hetag hkey]
              exact intent_permits_put (hcurrent₂ hkey).2.1 hfollows
            · exact intent_permits_put_other hkey fun heq =>
                absurd heq (intentKey_ne_resolvedKey current.intent intent)
          refine Prog.Keeps.bindLift (Prog.Keeps.of_known _ hknown ⟨hK₂, hcurrent₂⟩
            fun w₃ hinv₃ hK₃ answer w₄ hexec => ?_)
          obtain ⟨hinv₄, hstep⟩ := hpermits w₃ hinv₃ hK₃ answer w₄ hexec
          refine ⟨hinv₄, hstep, ?_⟩
          refine Prog.Keeps.bindThrowing ((readJson_keeps (fun _ => .refl) hlasting
            (hlasting _ _ hstep hK₃.1) _).mono fun o w₅ ⟨hK₅, hinv₅, hconfirm⟩ =>
              ⟨fun _ => ⟨hK₅, fun _ h => by cases h⟩, fun confirmed hsome => ?_⟩)
          cases hconfirmed : isStoredIntent host confirmed (intentText next) with
          | false => exact ⟨hK₅, fun _ h => by cases h⟩
          | true =>
              refine ⟨hK₅, fun value hvalue => ?_⟩
              cases hvalue
              refine ⟨hkeyNext, hR, fun hkey => ?_⟩
              have hkey' : current.intent.key = intent.key := hkeyNext.symm.trans hkey
              exact ⟨rfl, hvalid, (hcurrent₂ hkey').2.2.1.trans hmoves.same,
                written_of_confirmed hinv₅ (hkey' ▸ hconfirm _ hsome) hconfirmed⟩

/-! ### The controller -/

theorem transits_renewed (hbuilding : c.status = .building) :
    Transits host intent (fun _ => True) c renewed := by
  intro K hlasting w hK
  refine keeps_call hlasting hK (intent_permits_of_eq fun _ _ _ h => h)
    (fun _ hK => ⟨hK, fun _ h => by cases h⟩) fun _ now w₁ _ hK₁ => ?_
  cases hlease : leaseAfter now with
  | none => exact ⟨hK₁, fun _ h => by cases h⟩
  | some leaseUntil =>
      refine ⟨hK₁, fun n hn => ?_⟩
      cases hn
      exact ⟨⟨⟨rfl, rfl, rfl, rfl, rfl⟩, .inl hbuilding⟩, trivial⟩

theorem assertWritable_keeps (hlasting : Lasting (IntentStep host intent) K) (hK : K w)
    (c : CleanupIntent) :
    IntentKeeps host intent (fun o w' => K w' ∧ (o = some () → c.status = .building))
      (assertWritable host c).run w := by
  rw [assertWritable]
  by_cases hbuilding : c.status = .building
  · rw [decide_eq_true hbuilding, throwUnless_true_bind]
    refine keeps_call hlasting hK (intent_permits_of_eq fun _ _ _ h => h)
      (fun _ hK => ⟨hK, fun _ => hbuilding⟩) fun _ now w₁ _ hK₁ => ?_
    exact ⟨hK₁, fun _ => hbuilding⟩
  · rw [decide_eq_false hbuilding]
    exact ⟨hK, fun h => by cases h⟩

/-- What the controller knows of its state. -/
def Held (host : HostRuntime) (intent : CleanupIntent) (state : IntentValue) (w : LedgerWorld) :
    Prop :=
  state.intent.key = intent.key ∧ Holds host intent state w

theorem lasting_held (state : IntentValue) :
    Lasting (IntentStep host intent) (Held host intent state) :=
  fun w w' hstep h => ⟨h.1, lasting_holds state w w' hstep h.2⟩

/-- What a method leaves. -/
def Leaves (host : HostRuntime) (intent : CleanupIntent) (state : IntentValue)
    (o : Option IntentValue) (w : LedgerWorld) : Prop :=
  Held host intent state w ∧ ∀ next, o = some next → Held host intent next w

theorem leaves_none (h : Held host intent state w) :
    Leaves host intent state none w := ⟨h, fun _ h => by cases h⟩

/-- A change of a `building` intent. -/
theorem change_keeps (h : Held host intent state w)
    (htransits : Transits host intent R state.intent transition) :
    IntentKeeps host intent (fun o w' => Leaves host intent state o w' ∧
        ∀ next, o = some next → R next.intent)
      (transitionInboundCleanupIntent host state transition).run w := by
  refine (transition_keeps (lasting_held state) h h.2 htransits).mono fun o w' ⟨hheld, hnext⟩ => ?_
  refine ⟨⟨hheld, fun next hsome => ?_⟩, fun next hsome => (hnext next hsome).2.1⟩
  obtain ⟨hkey, -, hholds⟩ := hnext next hsome
  exact ⟨hkey.trans hheld.1, hholds⟩

/-- A method that settles the intent tells its caller what has been written. -/
theorem settle_keeps (h : Held host intent state w) {status : IntentStatus}
    (htransits : Transits host intent (fun n => n.status = status) state.intent transition) :
    IntentKeeps host intent (Leaves host intent state)
      (transitionInboundCleanupIntent host state transition >>= settledAs).run w := by
  refine Prog.Keeps.bindThrowing ((change_keeps h htransits).mono fun o w₁ ⟨hleaves, hstatus⟩ =>
    ⟨fun _ => leaves_none hleaves.1, fun next hsome => ?_⟩)
  have hnext := hleaves.2 next hsome
  have hpermits : IntentPermits host intent (fun w => Held host intent state w ∧
      Held host intent next w) (.note (.settled next.intent.key next.intent.status)) := by
    refine intent_permits_note fun w₂ hK status' htold => ?_
    obtain ⟨-, rfl⟩ := LedgerNote.settled.inj htold
    obtain ⟨-, hvalid, -, hmem⟩ := hK.2.2 hK.2.1
    exact ⟨next.intent, hvalid, rfl, hmem⟩
  refine keeps_call ((lasting_held state).and (lasting_held next)) ⟨hleaves.1, hnext⟩ hpermits
    (fun _ hK => leaves_none hK.1) fun _ _ w₂ _ hK => ⟨hK.1, fun other hother => ?_⟩
  cases hother
  exact hK.2

theorem method_keeps (method : ControllerCall) (h : Held host intent state w) :
    IntentKeeps host intent (Leaves host intent state) (method.method host state).run w := by
  cases method with
  | renew =>
      refine Prog.Keeps.bindThrowing ((assertWritable_keeps (lasting_held state) h _).mono
        fun o w₁ ⟨hheld, hwritable⟩ => ⟨fun _ => leaves_none hheld, fun _ hsome => ?_⟩)
      exact (change_keeps hheld (transits_renewed (hwritable hsome))).mono fun _ _ h => h.1
  | assertActive =>
      refine Prog.Keeps.bindThrowing ((readJson_keeps (fun _ => .refl) (lasting_held state) h
        _).mono fun o w₁ ⟨hheld, hinv, hfound⟩ => ⟨fun _ => leaves_none hheld,
          fun stored hsome => ?_⟩)
      cases hactive : activeIntent host state stored with
      | none => exact leaves_none hheld
      | some next =>
          have hnext : Held host intent next w₁ := by
            simp only [activeIntent, Option.bind_eq_bind, Option.bind_eq_some_iff] at hactive
            obtain ⟨found, rfl, c, hc, _, -, hvalue⟩ := hactive
            cases hvalue
            obtain ⟨states, hhistory⟩ := hinv.history
            obtain ⟨hhead, hjson, -⟩ := hhistory.of_found (hheld.1 ▸ hfound _ hsome) hc
            have hmem := List.mem_of_mem_head? hhead
            obtain ⟨hvalid, hsame⟩ := hhistory.valid c hmem
            refine ⟨?_, fun _ => ⟨hjson, hvalid, hsame, hhistory.mem_written hmem⟩⟩
            rw [key, hsame.emailId, hsame.projectionAttemptId, key]
          rw [orThrow_some_bind]
          refine keeps_call ((lasting_held state).and (lasting_held next)) ⟨hheld, hnext⟩
            (intent_permits_of_eq fun _ _ _ h => h) (fun _ hK => leaves_none hK.1)
            fun _ now w₂ _ hK => ?_
          rw [throwUnless]
          split
          · refine ⟨hK.1, fun other hother => ?_⟩
            cases hother
            exact hK.2
          · exact leaves_none hK.1
  | activateCommand commandFingerprint =>
      refine Prog.Keeps.bindThrowing ((assertWritable_keeps (lasting_held state) h _).mono
        fun o w₁ ⟨hheld, hwritable⟩ => ⟨fun _ => leaves_none hheld, fun _ hsome => ?_⟩)
      exact settle_keeps hheld (transits_pure ⟨⟨rfl, rfl, rfl, rfl, rfl⟩, .inl (hwritable hsome)⟩
        (show (activated commandFingerprint state.intent).status = .commandReady from rfl))
  | resolveProjection =>
      refine Prog.Keeps.bindThrowing ((assertWritable_keeps (lasting_held state) h _).mono
        fun o w₁ ⟨hheld, hwritable⟩ => ⟨fun _ => leaves_none hheld, fun _ hsome => ?_⟩)
      exact settle_keeps hheld (transits_pure ⟨⟨rfl, rfl, rfl, rfl, rfl⟩, .inl (hwritable hsome)⟩
        (show (projectionResolved state.intent).status = .projectionResolved from rfl))
  | abandon =>
      rw [ControllerCall.method]
      split
      · rename_i hbuilding
        refine keeps_call (lasting_held state) h (intent_permits_of_eq fun _ _ _ h => h)
          (fun _ hheld => leaves_none hheld) fun _ now w₁ _ hheld => ?_
        cases toISOString now with
        | none => exact leaves_none hheld
        | some abandonedAt =>
            rw [orThrow_some_bind]
            refine (change_keeps (R := fun _ => True) hheld (transits_pure
              ⟨⟨rfl, rfl, rfl, rfl, rfl⟩, .inl hbuilding⟩ trivial)).mono fun _ _ h => h.1
      · refine ⟨h, fun next hnext => ?_⟩
        cases hnext
        exact h

/-- **Whatever the calls are**, a controller keeps to the rules. -/
theorem runController_keeps (h : Held host intent state w) (methods : List ControllerCall) :
    IntentKeeps host intent (fun _ _ => True) (runController host state methods) w := by
  induction methods generalizing state w with
  | nil => exact trivial
  | cons method methods ih =>
      refine Prog.Keeps.bind ((method_keeps method h).mono fun o w₁ hleaves => ?_)
      cases o with
      | none => exact ih hleaves.1
      | some next => exact ih (hleaves.2 next rfl)

/-! ### Discovery -/

theorem lasting_listed (listing : Listing) :
    Lasting (IntentStep host intent) fun w => listing ∈ w.listed :=
  fun _ _ hstep h => hstep.listed _ h

/-- What is found under a name is all that the listings have. -/
theorem listNamespace_keeps (hlasting : Lasting (IntentStep host intent) K) (hK : K w)
    (start : String) (calls : ℕ) (cursor : Option String) (seen : List String)
    (found : List DerivedObject) :
    IntentKeeps host intent (fun o w' => K w' ∧ ∀ left objects, o = some (left, objects) →
        ∃ more, objects = found ++ more ∧ ListedFully w'.listed start cursor more)
      (listNamespace start calls cursor seen found).run w := by
  induction calls generalizing K w cursor seen found with
  | zero => exact ⟨hK, fun _ _ h => by cases h⟩
  | succ calls ih =>
      refine keeps_call hlasting hK (intent_permits_listObjects start cursor)
        (fun _ hK => ⟨hK, fun _ _ h => by cases h⟩) fun w₁ page w₂ hexec hK₂ => ?_
      obtain rfl : w₂ = { w₁ with listed := ⟨start, cursor, some page⟩ :: w₁.listed } := hexec
      have hlisted := List.mem_cons_self (a := (⟨start, cursor, some page⟩ : Listing))
        (l := w₁.listed)
      cases hobjects : discovered found page.objects with
      | none => exact ⟨hK₂, fun _ _ h => by cases h⟩
      | some objects =>
          rw [discovered, Option.ite_none_right_eq_some] at hobjects
          obtain rfl := Option.some.inj hobjects.2
          rw [orThrow_some_bind]
          cases hmore : page.truncated with
          | false =>
              refine ⟨hK₂, fun _ _ h => ⟨page.objects, ?_, .last hlisted hmore⟩⟩
              exact (Prod.mk.inj (Option.some.inj h)).2.symm
          | true =>
              rw [if_pos rfl, throwUnless]
              split
              · refine (ih (hlasting.and (lasting_listed _)) ⟨hK₂, hlisted⟩ page.cursor _ _).mono
                  fun o w₃ ⟨⟨hK₃, hlisted₃⟩, hrest⟩ => ⟨hK₃, fun left objects hsome => ?_⟩
                obtain ⟨more, rfl, hfully⟩ := hrest left objects hsome
                exact ⟨page.objects ++ more, List.append_assoc .., .more hlisted₃ hmore hfully⟩
              · exact ⟨hK₂, fun _ _ h => by cases h⟩

theorem lasting_listedFully (start : String) (cursor : Option String)
    (objects : List DerivedObject) :
    Lasting (IntentStep host intent) fun w => ListedFully w.listed start cursor objects :=
  fun _ _ hstep h => h.mono hstep.listed

theorem discoverAttemptObjects_keeps (hlasting : Lasting (IntentStep host intent) K) (hK : K w)
    (c : CleanupIntent) :
    IntentKeeps host intent (fun o w' => K w' ∧ ∀ objects, o = some objects →
        FoundFully c objects w')
      (discoverAttemptObjects c).run w := by
  refine Prog.Keeps.bindThrowing ((listNamespace_keeps hlasting hK _ _ _ _ _).mono
    fun o w₁ ⟨hK₁, hattachments⟩ => ⟨fun _ => ⟨hK₁, fun _ h => by cases h⟩, fun found hsome => ?_⟩)
  obtain ⟨calls, attachments⟩ := found
  obtain ⟨attachments, rfl, hlisted⟩ := hattachments _ _ hsome
  refine Prog.Keeps.bindThrowing ((listNamespace_keeps (hlasting.and
    (lasting_listedFully _ none attachments)) ⟨hK₁, hlisted⟩ _ _ _ _ _).mono
    fun o w₂ ⟨⟨hK₂, hlisted₂⟩, hbodies⟩ => ⟨fun _ => ⟨hK₂, fun _ h => by cases h⟩,
      fun found hsome => ?_⟩)
  obtain ⟨left, objects⟩ := found
  obtain ⟨bodies, rfl, hlisted'⟩ := hbodies _ _ hsome
  dsimp only
  rw [throwUnless]
  split
  · refine ⟨hK₂, fun objects hobjects => ⟨attachments, bodies, hlisted₂, hlisted', ?_⟩⟩
    exact (Option.some.inj hobjects).symm
  · exact ⟨hK₂, fun _ h => by cases h⟩

/-! ### The clean-up -/

theorem lasting_foundFully (c : CleanupIntent) (objects : List DerivedObject) :
    Lasting (IntentStep host intent) (FoundFully c objects) :=
  fun _ _ hstep ⟨attachments, bodies, hattachments, hbodies, hobjects⟩ =>
    ⟨attachments, bodies, hattachments.mono hstep.listed, hbodies.mono hstep.listed, hobjects⟩

theorem cleanUpAttempt_keeps (hlasting : Lasting (IntentStep host intent) K) (hK : K w)
    (hdue : ∀ w, K w → c.key = intent.key → CleanupDue host intent w) :
    IntentKeeps host intent (fun o w' => K w' ∧ ∀ objects, o = some objects →
        Covered c objects w')
      (cleanUpAttempt c).run w := by
  refine keeps_call hlasting hK (intent_permits_of_eq fun _ _ _ h => h)
    (fun _ hK => ⟨hK, fun _ h => by cases h⟩) fun _ answer w₁ _ hK₁ => ?_
  cases projectInboundDerivedContentManifest answer c.emailId with
  | none => exact ⟨hK₁, fun _ h => by cases h⟩
  | some manifest =>
      rw [orThrow_some_bind]
      refine Prog.Keeps.bindThrowing ((discoverAttemptObjects_keeps hlasting hK₁ c).mono
        fun o w₂ ⟨hK₂, hfound⟩ => ⟨fun _ => ⟨hK₂, fun _ h => by cases h⟩, fun objects hsome => ?_⟩)
      have hfound := hfound objects hsome
      cases lengthsAgree manifest.committed objects with
      | false => exact ⟨hK₂, fun _ h => by cases h⟩
      | true =>
          rw [throwUnless_true_bind]
          cases listingCovers c manifest.committed objects with
          | false => exact ⟨hK₂, fun _ h => by cases h⟩
          | true =>
              rw [throwUnless_true_bind]
              split
              · rename_i hempty
                refine ⟨hK₂, fun other hother => ?_⟩
                cases hother
                exact ⟨hfound, .inl hempty⟩
              · have hpermits : IntentPermits host intent (fun w => K w ∧ FoundFully c objects w)
                    (.enqueue c.mailboxId (c.cleanupRequest objects)) := by
                  refine intent_permits_enqueue _ fun w hK hemail hattempt => hdue w hK.1 ?_
                  rw [key, key, ← hemail, ← hattempt]
                  rfl
                refine keeps_call (hlasting.and (lasting_foundFully c objects)) ⟨hK₂, hfound⟩
                  hpermits (fun _ hK => ⟨hK.1, fun _ h => by cases h⟩)
                  fun w₃ counts w₄ hexec hK₄ => ⟨hK₄.1, fun other hother => ?_⟩
                cases hother
                obtain rfl : w₄ = { w₃ with requests := (c.cleanupRequest objects, some counts) ::
                  w₃.requests } := hexec
                exact ⟨hK₄.2, .inr ⟨counts, List.mem_cons_self⟩⟩

/-! ### The sweep -/

/-- A resolution that is read is stored. -/
theorem readRepairAttemptResolution_keeps (hlasting : Lasting (IntentStep host intent) K) (hK : K w)
    (c : CleanupIntent) (commandFingerprint : String) :
    IntentKeeps host intent (fun o w' => K w' ∧ ∀ resolution, o = some (some resolution) →
        ResolutionStored host c commandFingerprint w')
      (readRepairAttemptResolution host c.emailId c.projectionAttemptId commandFingerprint).run
      w := by
  refine Prog.Keeps.bindThrowing ((readJson_keeps (fun _ => .refl) hlasting hK _).mono
    fun o w₁ ⟨hK₁, _, hfound⟩ => ⟨fun _ => ⟨hK₁, fun _ h => by cases h⟩, fun stored hsome => ?_⟩)
  refine ⟨hK₁, fun resolution hresolution => ?_⟩
  obtain ⟨⟨found, attempt⟩, hbind, hmatches⟩ :=
    Option.bind_eq_some_iff.mp (Option.some.inj hresolution)
  obtain ⟨object, rfl, hread⟩ := Option.bind_eq_some_iff.mp hbind
  obtain ⟨⟨hingress, hattempt, hfingerprint⟩, -⟩ := Option.ite_none_right_eq_some.mp hmatches
  obtain ⟨htext, readable, hvalue⟩ := hfound _ hsome object rfl
  rw [hvalue] at hread
  cases readable with
  | false => cases (readResolution_jsonOf_false _).symm.trans hread
  | true => exact ⟨_, found, attempt, htext, hread, hingress, hattempt, hfingerprint⟩

/-- The intent that was read is deleted by a worker who knows that it may be. -/
theorem permits_delete_current
    (hdeletable : ∀ w, K w → c.key = intent.key → Deletable host intent w) :
    IntentPermits host intent K (.delete c.key) := by
  by_cases hkey : c.key = intent.key
  · rw [hkey]
    exact intent_permits_delete fun w hK => hdeletable w hK hkey
  · exact intent_permits_delete_other hkey (intentKey_ne_resolvedKey c intent)

theorem deleteIntent_keeps (hlasting : Lasting (IntentStep host intent) K) (hK : K w)
    (hdeletable : ∀ w, K w → c.key = intent.key → Deletable host intent w) :
    IntentKeeps host intent (fun _ _ => True) (deleteIntent c.key).run w :=
  keeps_call hlasting hK (permits_delete_current hdeletable) (fun _ _ => trivial)
    fun _ _ _ _ _ => trivial

/-- What is covered of the intent that was read, is covered of the intent. -/
theorem Covered.of_same (h : Covered c objects w) (hsame : intent.Same c) :
    Covered intent objects w := by
  rw [Covered, FoundFully, cleanupRequest] at h ⊢
  rwa [hsame.emailId, hsame.projectionAttemptId] at h

theorem ResolutionStored.of_same {commandFingerprint : String}
    (h : ResolutionStored host c commandFingerprint w) (hsame : intent.Same c) :
    ResolutionStored host intent commandFingerprint w := by
  rw [ResolutionStored, resolvedKey] at h ⊢
  rwa [hsame.emailId, hsame.projectionAttemptId] at h

theorem lasting_resolutionStored (c : CleanupIntent) (commandFingerprint : String)
    (hsame : intent.Same c) :
    Lasting (IntentStep host intent) (ResolutionStored host c commandFingerprint) := by
  intro w w' hstep h
  have hstored := hstep.resolutionStored (h.of_same hsame)
  rw [ResolutionStored, resolvedKey] at hstored ⊢
  rwa [hsame.emailId, hsame.projectionAttemptId]

theorem lasting_covered (c : CleanupIntent) (objects : List DerivedObject) :
    Lasting (IntentStep host intent) (Covered c objects) :=
  fun w w' hstep ⟨hfound, hcalled⟩ => ⟨lasting_foundFully c objects w w' hstep hfound,
    hcalled.imp id fun ⟨counts, hmem⟩ => ⟨counts, hstep.requests _ hmem⟩⟩

/-- A ready command has a fingerprint. -/
theorem fingerprint_of_ready (hvalid : c.valid host = true) (hstatus : c.status = .commandReady) :
    c.commandFingerprint = some (c.commandFingerprint.getD "") := by
  have hfits : c.statusFits = true := (Bool.and_eq_true_iff.mp hvalid).2
  rw [statusFits, hstatus] at hfits
  simp only [Bool.and_eq_true, decide_eq_true_eq] at hfits
  obtain ⟨f, hf⟩ := Option.ne_none_iff_exists'.mp hfits.1.2
  rw [hf, Option.getD_some]

theorem observeAbandoned_keeps (h : Holds host intent current w)
    (hstatus : current.intent.status = .abandoned) (now : ℤ)
    (hcovered : Covered current.intent objects w) :
    IntentKeeps host intent (fun _ _ => True)
      (observeAbandoned host current.intent.key current now objects).run w := by
  rw [observeAbandoned]
  split
  · split
    · refine Prog.Keeps.bindThrowing ((transition_keeps (R := fun _ => True) lasting_true trivial h
        (transits_pure ⟨⟨rfl, rfl, rfl, rfl, rfl⟩, .inr ⟨hstatus, hstatus⟩⟩ trivial)).mono
        fun _ _ _ => ⟨fun _ => trivial, fun _ _ => trivial⟩)
    · exact trivial
  rename_i hempty
  obtain rfl := not_not.mp hempty
  split
  · exact trivial
  have htransits : Transits host intent (fun _ => True) current.intent fun intent => do
      let observedAt ← orThrow (toISOString now)
      return observedEmpty observedAt intent := by
    intro K _ w hK
    cases toISOString now with
    | none => exact ⟨hK, fun _ h => by cases h⟩
    | some observedAt =>
        refine ⟨hK, fun n hn => ?_⟩
        cases hn
        exact ⟨⟨⟨rfl, rfl, rfl, rfl, rfl⟩, .inr ⟨hstatus, hstatus⟩⟩, trivial⟩
  have hholds : Lasting (IntentStep host intent) (Holds host intent current) :=
    lasting_holds current
  have hlasting := hholds.and (lasting_covered current.intent [])
  refine Prog.Keeps.bindThrowing ((transition_keeps hlasting ⟨h, hcovered⟩ h htransits).mono
    fun o w₁ ⟨hK₁, _⟩ => ⟨fun _ => trivial, fun terminal _ => ?_⟩)
  split
  · refine deleteIntent_keeps hlasting hK₁ fun w₂ hK hkey => ?_
    obtain ⟨-, hvalid, hsame, hmem⟩ := hK.1 hkey
    exact .abandoned ⟨_, hvalid, hstatus, hmem⟩ (hK.2.of_same hsame)
  · exact trivial

theorem sweepIntent_keeps (h : Holds host intent current w) (supported : Bool) (now : ℤ) :
    IntentKeeps host intent (fun _ _ => True)
      (sweepIntent host supported now current.intent.key current).run w := by
  have hlasting : Lasting (IntentStep host intent) (Holds host intent current) :=
    lasting_holds current
  rw [sweepIntent]
  cases hstatus : current.intent.status with
  | projectionResolved =>
      refine deleteIntent_keeps hlasting h fun w₁ hK hkey => ?_
      obtain ⟨-, hvalid, -, hmem⟩ := hK hkey
      exact .resolved ⟨_, hvalid, hstatus, hmem⟩
  | building =>
      dsimp only
      split
      · exact trivial
      cases toISOString now with
      | none => exact trivial
      | some abandonedAt =>
          rw [orThrow_some_bind]
          exact Prog.Keeps.bindThrowing ((transition_keeps (R := fun _ => True) lasting_true trivial
            h (transits_pure ⟨⟨rfl, rfl, rfl, rfl, rfl⟩, .inl hstatus⟩ trivial)).mono
            fun _ _ _ => ⟨fun _ => trivial, fun _ _ => trivial⟩)
  | commandReady =>
      refine Prog.Keeps.bindThrowing ((readRepairAttemptResolution_keeps hlasting h current.intent
        _).mono fun o w₁ ⟨hK₁, hstored⟩ => ⟨fun _ => trivial, fun resolution hsome => ?_⟩)
      cases resolution with
      | none => exact trivial
      | some resolution =>
          cases supported with
          | false => exact trivial
          | true =>
              have hstored := hstored resolution hsome
              have hknown : Lasting (IntentStep host intent) fun w =>
                  Holds host intent current w ∧ (current.intent.key = intent.key →
                    ResolutionStored host current.intent
                      (current.intent.commandFingerprint.getD "") w) := by
                intro w w' hstep hK
                exact ⟨hlasting w w' hstep hK.1, fun hkey => lasting_resolutionStored _ _
                  (hK.1 hkey).2.2.1 w w' hstep (hK.2 hkey)⟩
              have hready : ∀ w, Holds host intent current w → current.intent.key = intent.key →
                  WasReady host intent (current.intent.commandFingerprint.getD "") w := by
                intro w hK hkey
                obtain ⟨-, hvalid, -, hmem⟩ := hK hkey
                exact ⟨_, hvalid, hstatus, fingerprint_of_ready hvalid hstatus, hmem⟩
              refine Prog.Keeps.bindThrowing ((cleanUpAttempt_keeps hknown
                ⟨hK₁, fun _ => hstored⟩ fun w hK hkey => .inr ⟨_, hready w hK.1 hkey,
                  (hK.2 hkey).of_same (hK.1 hkey).2.2.1⟩).mono fun o w₂ ⟨hK₂, hcovered⟩ =>
                ⟨fun _ => trivial, fun objects hsome => ?_⟩)
              refine deleteIntent_keeps (hknown.and (lasting_covered _ objects))
                ⟨hK₂, hcovered objects hsome⟩ fun w₃ hK hkey => ?_
              have hsame := (hK.1.1 hkey).2.2.1
              exact .ready _ (hready w₃ hK.1.1 hkey) ((hK.1.2 hkey).of_same hsame) objects
                (hK.2.of_same hsame)
  | abandoned =>
      cases supported with
      | false => exact trivial
      | true =>
          refine Prog.Keeps.bindThrowing ((cleanUpAttempt_keeps hlasting h fun w hK hkey =>
            .inl ⟨_, (hK hkey).2.1, hstatus, (hK hkey).2.2.2⟩).mono fun o w₁ ⟨hK₁, hcovered⟩ =>
            ⟨fun _ => trivial, fun objects hsome => ?_⟩)
          exact observeAbandoned_keeps hK₁ hstatus now (hcovered objects hsome)

theorem sweepKey_keeps (supported : Bool) (now : ℤ) (key : String) :
    IntentKeeps host intent (fun _ _ => True) (sweepKey host supported now key) w := by
  rw [sweepKey]
  split
  swap
  · exact trivial
  refine Prog.Keeps.bind (Prog.Keeps.mono (Q := fun _ _ => True) ?_ fun _ _ _ => trivial)
  refine Prog.Keeps.bindThrowing ((readJson_keeps (fun _ => .refl) lasting_true trivial key).mono
    fun o w₁ ⟨_, hinv, hfound⟩ => ⟨fun _ => trivial, fun stored hsome => ?_⟩)
  cases hread : stored.bind fun stored => (readIntent host stored.value).map fun intent =>
      (⟨intent, stored.value⟩ : IntentValue) with
  | none => exact trivial
  | some current =>
      dsimp only
      split
      · exact trivial
      rename_i hkey
      obtain rfl := not_not.mp hkey
      exact sweepIntent_keeps (holds_of_found hinv (hfound stored hsome) hread rfl) supported now

theorem sweepKeys_keeps (supported : Bool) (now : ℤ) (keys : List String) :
    IntentKeeps host intent (fun _ _ => True) (sweepKeys host supported now keys) w := by
  induction keys generalizing w with
  | nil => exact trivial
  | cons key keys ih =>
      refine Prog.Keeps.bind ((sweepKey_keeps supported now key).mono fun _ _ _ => ?_)
      exact Prog.Keeps.bind (ih.mono fun _ _ _ => trivial)

/-- **A sweep keeps to the rules** of every intent. -/
theorem reconcileInboundCleanupIntents_keeps (supported : Bool) (now : ℤ) :
    IntentKeeps host intent (fun _ _ => True)
      (reconcileInboundCleanupIntents host supported now).run w := by
  refine Prog.Keeps.bindThrowing ((readJson_keeps (fun _ => .refl) lasting_true trivial _).mono
    fun o w₁ _ => ⟨fun _ => trivial, fun cursorState _ => ?_⟩)
  refine keeps_call lasting_true trivial (intent_permits_of_eq fun _ _ _ h => h)
    (fun _ _ => trivial) fun _ page w₂ _ _ => ?_
  refine Prog.Keeps.bindLift ((sweepKeys_keeps supported now page.objects).mono
    fun accepted w₃ _ => ?_)
  cases page.valid with
  | false => exact trivial
  | true =>
      rw [throwUnless_true_bind]
      cases toISOString now with
      | none => exact trivial
      | some updatedAt =>
          exact keeps_call lasting_true trivial (intent_permits_put_other
            (intentKey_ne_cursorKey intent).symm fun heq =>
              absurd heq.symm (resolvedKey_ne_intentCursorKey intent))
            (fun _ _ => trivial) fun _ _ _ _ _ => trivial

end MailPortal.Derived
