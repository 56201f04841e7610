import MailPortal.Derived.RepairRules

/-!
# Every Program Keeps to the Rules

Every program that touches repair attempts keeps to the rules of each of them. What a worker knows
when it deletes a pending record comes from `resolveRepairAttempt`, or from the resolution that it
has read, and from the counts that the mailbox has answered.

Main results:

* `resolveAttempt_keeps`, `reconcilePendingInboundRepairAttempts_keeps`.
-/

namespace MailPortal.Derived

open Concurrent Json

variable {α β : Type} {host : HostRuntime} {attempt other : RepairAttempt} {w w' : LedgerWorld}
variable {resolution : RepairResolution} {K : LedgerWorld → Prop}

/-! ### Reading -/

/-- What is found under the pending key, and is an attempt, is the attempt. -/
theorem attempt_of_found (hvalid : attempt.valid host = true) (hinv : RepairInv attempt w)
    {stored : Option StoredJson} (hfound : Found attempt.pendingKey stored w)
    (hread : (stored.bind fun stored => readAttempt host stored.value) = some other) :
    other = attempt := by
  obtain ⟨found, rfl, hother⟩ := Option.bind_eq_some_iff.mp hread
  obtain ⟨htext, readable, hvalue⟩ := hfound found rfl
  rcases hinv.pending with hnone | hpending
  · rw [hnone] at htext
    cases htext
  · have hetag : found.etag = pendingText attempt := Option.some.inj (htext.symm.trans hpending)
    rw [hvalue, hetag] at hother
    cases readable with
    | false =>
        rw [readAttempt_jsonOf_false] at hother
        cases hother
    | true =>
        rw [pendingText, jsonOf_stringify (plain_attemptJson hvalid),
          readAttempt_attemptJson hvalid] at hother
        exact (Option.some.inj hother).symm

/-- What is found under the resolved key, and is a resolution, is stored for the attempt. -/
theorem resolution_of_found (hvalid : attempt.valid host = true) (hinv : RepairInv attempt w)
    {found : StoredJson} (hfound : Found attempt.resolvedKey (some found) w)
    {resolved : RepairAttempt}
    (hread : readResolution host found.value = some (resolution, resolved)) :
    Durable attempt resolution w ∧ found.value = resolutionJson resolution attempt := by
  obtain ⟨htext, readable, hvalue⟩ := hfound found rfl
  rcases hinv.resolved with hnone | ⟨stored, hstored⟩
  · rw [hnone] at htext
    cases htext
  · obtain hetag := Option.some.inj (htext.symm.trans hstored)
    rw [hvalue, hetag] at hread ⊢
    cases readable with
    | false =>
        rw [readResolution_jsonOf_false] at hread
        cases hread
    | true =>
        rw [resolvedText, jsonOf_stringify (plain_resolutionJson stored hvalid)] at hread ⊢
        rw [readResolution_resolutionJson stored hvalid] at hread
        cases hread
        exact ⟨hstored, rfl⟩

/-! ### The records -/

/-- The attempts that are not this one have other keys. -/
def Apart (attempt other : RepairAttempt) : Prop :=
  other = attempt ∨ other.pendingKey ≠ attempt.pendingKey

theorem Apart.resolvedKey_ne (h : Apart attempt other) (hne : other ≠ attempt) :
    other.resolvedKey ≠ attempt.resolvedKey := by
  rcases h with rfl | h
  · exact absurd rfl hne
  · exact fun heq => h ((pendingKey_eq_iff other attempt).mpr heq)

theorem allowed_put_resolution (hapart : Apart attempt other) (resolution : RepairResolution) :
    Allowed attempt K (.put other.resolvedKey (resolvedText other resolution) .absent) := by
  by_cases hsame : other = attempt
  · rw [hsame]
    exact allowed_put_resolved resolution
  · exact allowed_put_other (pendingKey_ne_resolvedKey attempt other).symm
      (hapart.resolvedKey_ne hsame)

theorem allowed_put_attempt (hapart : Apart attempt other) :
    Allowed attempt K (.put other.pendingKey (pendingText other) .absent) := by
  rcases hapart with rfl | hne
  · exact allowed_put_pending
  · exact allowed_put_other hne (pendingKey_ne_resolvedKey other attempt)

theorem persistPendingRepairAttempt_keeps (hapart : Apart attempt other) :
    RepairKeeps attempt (fun _ _ => True) (persistPendingRepairAttempt host other) w := by
  rw [persistPendingRepairAttempt]
  split
  · refine keeps_ask lasting_true trivial (allowed_put_attempt hapart) fun _ _ _ _ _ _ _ => ?_
    refine Prog.Keeps.bind ((readJson_keeps (fun _ => .refl) lasting_true trivial _).mono
      fun _ _ _ => ?_)
    exact trivial
  · exact trivial

/-- **Whoever is told that a resolution is durable** knows that it is. -/
theorem resolveRepairAttempt_keeps (hvalid : attempt.valid host = true)
    (hapart : Apart attempt other) (resolution : RepairResolution) :
    RepairKeeps attempt (fun durable w' => durable = true → other = attempt →
      Durable attempt resolution w') (resolveRepairAttempt host other resolution) w := by
  rw [resolveRepairAttempt]
  split
  swap
  · exact fun h => by cases h
  refine keeps_ask lasting_true trivial (allowed_put_resolution hapart resolution)
    fun w₁ written w₂ _ _ hexec _ => ?_
  split
  · rename_i hwritten
    intro _ hsame
    rw [hwritten] at hexec
    rw [exec_put_written hexec, Durable, ← hsame]
    exact Bucket.set_self ..
  · refine Prog.Keeps.bind ((readJson_keeps (fun _ => .refl) lasting_true trivial _).mono
      fun existing w₃ hread => ?_)
    obtain ⟨_, hinv, hfound⟩ := hread
    intro hconfirmed hsame
    cases existing with
    | none => cases hconfirmed
    | some stored =>
        cases stored with
        | none => cases hconfirmed
        | some found =>
            obtain ⟨hresolved, htext⟩ := Bool.and_eq_true_iff.mp hconfirmed
            rw [hsame] at hfound htext
            cases hread : readResolution host found.value with
            | none =>
                rw [hread] at hresolved
                cases hresolved
            | some resolved =>
                obtain ⟨hdurable, hvalue⟩ := resolution_of_found hvalid hinv (hfound _ rfl)
                  hread
                rw [hvalue] at htext
                rw [Durable, resolvedText, ← of_decide_eq_true htext]
                exact hdurable

/-! ### The clean-up and the deletion -/

theorem enqueueDiscardedAttemptCleanup_keeps (hknown : Lasting (RepairStep attempt) K) (hK : K w) :
    RepairKeeps attempt (fun o w' => K w' ∧ (o = some true → other = attempt → Cleaned attempt w'))
      (enqueueDiscardedAttemptCleanup other).run w := by
  rw [enqueueDiscardedAttemptCleanup]
  split
  · rename_i hempty
    exact ⟨hK, fun _ hsame => .inl (hsame ▸ hempty)⟩
  · refine Prog.Keeps.of_known K hknown hK fun w₁ hinv hK₁ answer w₂ hexec => ?_
    obtain ⟨hinv₂, hstep⟩ := allowed_enqueue (K := K) _ _ w₁ hinv hK₁ answer w₂ hexec
    have hK₂ := hknown w₁ w₂ hstep hK₁
    refine ⟨hinv₂, hstep, ?_⟩
    cases answer with
    | none => exact ⟨hK₂, fun h => by cases h⟩
    | some counts =>
        refine ⟨hK₂, fun hcounts hsame => .inr ⟨counts, ?_, ?_⟩⟩
        · obtain rfl : w₂ = { w₁ with requests := (other.cleanupRequest, some counts) ::
            w₁.requests } := hexec
          rw [hsame]
          exact List.mem_cons_self
        · rw [← hsame]
          exact Option.some.inj hcounts

/-- A pending record is deleted by a worker who knows that it may be, if it is the attempt's. -/
theorem allowed_delete_attempt (hapart : Apart attempt other)
    (hdurable : ∀ w, K w → other = attempt → Durable attempt resolution w)
    (hcleaned : ∀ w, K w → other = attempt → resolution = .discarded → Cleaned attempt w) :
    Allowed attempt K (.delete other.pendingKey) := by
  rcases hapart with rfl | hne
  · exact allowed_delete_pending (fun w hK => hdurable w hK rfl) fun w hK => hcleaned w hK rfl
  · exact allowed_delete_other hne (pendingKey_ne_resolvedKey other attempt)

theorem finishAttempt_keeps (hapart : Apart attempt other) (resolution : RepairResolution)
    (hdurable : other = attempt → Durable attempt resolution w) :
    RepairKeeps attempt (fun _ _ => True)
      (finishAttempt other.pendingKey other resolution).run w := by
  cases resolution with
  | owned =>
      refine keeps_call (known_durable _ _) hdurable
        (allowed_delete_attempt hapart (fun _ h => h) fun _ _ _ h => by cases h)
        (fun _ _ => trivial) fun _ _ _ _ _ => trivial
  | discarded =>
      refine Prog.Keeps.bindThrowing ((enqueueDiscardedAttemptCleanup_keeps
        (known_durable (other = attempt) .discarded) hdurable).mono fun o w' hcleaned => ?_)
      refine ⟨fun _ => trivial, fun cleaned hsome => ?_⟩
      cases cleaned with
      | false => exact trivial
      | true =>
          refine keeps_call ((known_durable (other = attempt) .discarded).and
            (known_cleaned (other = attempt))) ⟨hcleaned.1, hcleaned.2 hsome⟩
            (allowed_delete_attempt hapart (fun _ h => h.1) fun _ h hsame _ => h.2 hsame)
            (fun _ _ => trivial) fun _ _ _ _ _ => trivial

/-- A caller who is answered yes knows that the resolution is durable. -/
theorem resolveAttempt_keeps (hvalid : attempt.valid host = true) (hapart : Apart attempt other)
    (resolution : RepairResolution) :
    RepairKeeps attempt (fun durable w' => durable = true → other = attempt →
      Durable attempt resolution w') (resolveAttempt host other resolution) w := by
  refine Prog.Keeps.bind ((resolveRepairAttempt_keeps hvalid hapart resolution).mono
    fun durable w' hdurable => ?_)
  cases durable with
  | false => exact fun h => by cases h
  | true =>
      refine Prog.Keeps.of_known _ (known_durable (other = attempt) resolution) (hdurable rfl)
        fun w₁ hinv hdurable₁ answer w₂ hexec => ?_
      obtain ⟨hinv₂, hstep⟩ := allowed_note (fun _ h => h) w₁ hinv hdurable₁ answer w₂ hexec
      exact ⟨hinv₂, hstep, fun _ => known_durable _ _ w₁ w₂ hstep hdurable₁⟩

theorem resolveAndFinish_keeps (hvalid : attempt.valid host = true) (hapart : Apart attempt other)
    (resolution : RepairResolution) :
    RepairKeeps attempt (fun _ _ => True)
      (resolveAndFinish host other.pendingKey other resolution).run w := by
  refine Prog.Keeps.bindLift ((resolveAttempt_keeps hvalid hapart resolution).mono
    fun durable w' hdurable => ?_)
  cases durable with
  | false => exact trivial
  | true => exact finishAttempt_keeps hapart resolution (hdurable rfl)

/-! ### A run -/

theorem storedResolution_durable (hvalid : attempt.valid host = true) (hinv : RepairInv attempt w)
    {existing : Option StoredJson} (hfound : Found attempt.resolvedKey existing w)
    (hstored : storedResolution host attempt existing = some resolution) :
    Durable attempt resolution w := by
  obtain ⟨⟨found, resolved⟩, hfilter, rfl⟩ := Option.map_eq_some_iff.mp hstored
  obtain ⟨hbind, -⟩ := Option.filter_eq_some_iff.mp hfilter
  obtain ⟨stored, rfl, hread⟩ := Option.bind_eq_some_iff.mp hbind
  exact (resolution_of_found hvalid hinv hfound hread).1

theorem processAttempt_keeps (hvalid : attempt.valid host = true) (hapart : Apart attempt other) :
    RepairKeeps attempt (fun _ _ => True) (processAttempt host other.pendingKey other).run w := by
  refine Prog.Keeps.bindThrowing ((readJson_keeps (fun _ => .refl) lasting_true trivial _).mono
    fun o w₁ ⟨_, hinv, hfound⟩ => ⟨fun _ => trivial, fun existing hsome => ?_⟩)
  cases hstored : storedResolution host other existing with
  | some resolution =>
      refine finishAttempt_keeps hapart resolution fun hsame => ?_
      subst hsame
      exact storedResolution_durable hvalid hinv (hfound existing hsome) hstored
  | none =>
      refine keeps_call lasting_true trivial (allowed_of_eq fun _ _ _ h => h) (fun _ _ => trivial)
        fun _ now w₂ _ _ => ?_
      split
      · exact trivial
      refine keeps_call lasting_true trivial (allowed_of_eq fun _ _ _ h => h) (fun _ _ => trivial)
        fun _ terminal w₃ _ _ => ?_
      cases terminal with
      | committed => exact resolveAndFinish_keeps hvalid hapart .owned
      | abandoned => exact resolveAndFinish_keeps hvalid hapart .discarded
      | rejected => exact resolveAndFinish_keeps hvalid hapart .discarded
      | other => exact trivial

theorem reconcileAttempt_keeps (hvalid : attempt.valid host = true) (key : String) :
    RepairKeeps attempt (fun _ _ => True) (reconcileAttempt host key).run w := by
  refine Prog.Keeps.bindLift ((readJson_keeps (fun _ => .refl) lasting_true trivial key).mono
    fun pending w₁ ⟨_, hinv, hfound⟩ => ?_)
  cases hread : pending.join.bind fun pending => readAttempt host pending.value with
  | none => exact trivial
  | some other =>
      dsimp only
      split
      · exact trivial
      rename_i hkey
      obtain rfl := not_not.mp hkey
      have hapart : Apart attempt other := by
        by_cases hpending : other.pendingKey = attempt.pendingKey
        · have hpendingFound : Found attempt.pendingKey pending.join w₁ := by
            rw [← hpending]
            cases pending with
            | none => exact fun _ h => by cases h
            | some stored => exact hfound stored rfl
          exact .inl (attempt_of_found hvalid hinv hpendingFound hread)
        · exact .inr hpending
      refine Prog.Keeps.bindLift ((processAttempt_keeps hvalid hapart).mono fun o w₂ _ => ?_)
      cases o with
      | some resolved => exact trivial
      | none =>
          exact keeps_call lasting_true trivial (allowed_of_eq fun _ _ _ h => h)
            (fun _ _ => trivial) fun _ _ _ _ _ => trivial

theorem reconcileAttempts_keeps (hvalid : attempt.valid host = true) (keys : List String) :
    RepairKeeps attempt (fun _ _ => True) (reconcileAttempts host keys).run w := by
  induction keys generalizing w with
  | nil => exact trivial
  | cons key keys ih =>
      refine Prog.Keeps.bindThrowing ((reconcileAttempt_keeps hvalid key).mono
        fun o w₁ _ => ⟨fun _ => trivial, fun resolved _ => ?_⟩)
      exact Prog.Keeps.bindThrowing (ih.mono fun o w₂ _ =>
        ⟨fun _ => trivial, fun others _ => trivial⟩)

/-- **A run keeps to the rules** of every attempt. -/
theorem reconcilePendingInboundRepairAttempts_keeps (hvalid : attempt.valid host = true) :
    RepairKeeps attempt (fun _ _ => True) (reconcilePendingInboundRepairAttempts host).run w := by
  refine Prog.Keeps.bindThrowing ((readJson_keeps (fun _ => .refl) lasting_true trivial _).mono
    fun o w₁ _ => ⟨fun _ => trivial, fun cursorState _ => ?_⟩)
  refine keeps_call lasting_true trivial (allowed_of_eq fun _ _ _ h => h) (fun _ _ => trivial)
    fun _ page w₂ _ _ => ?_
  refine Prog.Keeps.bindThrowing ((reconcileAttempts_keeps hvalid page.objects).mono
    fun o w₃ _ => ⟨fun _ => trivial, fun resolved _ => ?_⟩)
  rw [throwUnless]
  cases page.valid with
  | false => exact trivial
  | true =>
      refine keeps_call lasting_true trivial (allowed_of_eq fun _ _ _ h => h) (fun _ _ => trivial)
        fun _ now w₄ _ _ => ?_
      rw [orThrow]
      cases toISOString now with
      | none => exact trivial
      | some updatedAt =>
          exact keeps_call lasting_true trivial (allowed_put_other (cursorKey_ne_pendingKey attempt)
            (cursorKey_ne_resolvedKey attempt)) (fun _ _ => trivial) fun _ _ _ _ _ => trivial

end MailPortal.Derived
