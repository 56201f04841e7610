import MailPortal.Import.PromotionIntent

/-!
# What a Seal Commits to

The invariant of a promotion, in all its steps: the stored objects have the ordinals from 0 on, the
counts of the intent are theirs, and the rolling fingerprint is the fingerprint of the whole list.
A batch is appended only where the list ends and only after the fingerprint it was computed from,
so that a stale snapshot, a replay or an overlap changes nothing.

Main results:

* `promotionInv_run` : the invariant of every reachable state.
* `sealed_run` : after a seal nothing changes the list or the proof.
* `seal_commits` : a seal commits to exactly what was appended.
-/

namespace MailPortal.Import

open Failure Runs

variable {sha256Hex : String → String} {identity : ImportPromotionIdentity}
  {t t' : PromotionTables}
variable {objects : List ImportPromotionObject} {row : IntentRow} {next initial : String}
  {snapshot : ImportPromotionAppendSnapshot} {now : ℤ} {result : PromotionStatus × PromotionTables}

/-! ### Batches -/

theorem totalBytes_eq_sum (objects : List ImportPromotionObject) :
    totalBytes objects = (objects.map ImportPromotionObject.byteLength).sum := by
  rw [totalBytes, List.sum_eq_foldl]

/-- A contiguous batch counts up from its first ordinal. -/
theorem ordinal_of_contiguous (h : contiguous objects = true) (i : ℕ) (hi : i < objects.length) :
    objects[i].ordinal = firstOrdinal objects + i := by
  induction objects generalizing i with
  | nil => exact absurd hi (Nat.not_lt_zero i)
  | cons object objects ih =>
      cases i with
      | zero => simp [firstOrdinal]
      | succ i =>
          cases objects with
          | nil => exact absurd (Nat.lt_of_succ_lt_succ hi) (Nat.not_lt_zero i)
          | cons next objects =>
              rw [contiguous, Bool.and_eq_true, decide_eq_true_eq] at h
              have hrest := ih h.2 i (Nat.lt_of_succ_lt_succ hi)
              simp only [firstOrdinal, List.head?_cons, Option.map_some,
                Option.getD_some] at hrest ⊢
              rw [List.getElem_cons_succ, hrest, h.1]
              push_cast
              ring

/-! ### The invariant -/

/-- What the row of an intent says of its objects. -/
structure Recorded (sha256Hex : String → String) (identity : ImportPromotionIdentity)
    (row : IntentRow) (objects : List ImportPromotionObject) : Prop where
  count : row.recordedCount = objects.length
  ordinals : ∀ i (hi : i < objects.length), objects[i].ordinal = i
  bytes : row.recordedByteLength = (objects.map ImportPromotionObject.byteLength).sum
  within : row.recordedByteLength ≤ row.totalByteLength
  fingerprint : importPromotionFingerprint sha256Hex identity objects = .ok row.rollingFingerprint
  proof : row.proofFingerprint = none ∨
    row.proofFingerprint = some row.rollingFingerprint ∧ row.state = .recorded ∧
      row.recordedCount = row.objectCount ∧ row.recordedByteLength = row.totalByteLength

/-- What holds between two calls: every intent has recorded its objects, and there are no
others. -/
structure PromotionInv (sha256Hex : String → String) (t : PromotionTables) : Prop where
  orphan : ∀ identity, t.intent identity = none → t.objectsOf identity = []
  recorded : ∀ identity row, t.intent identity = some row →
    Recorded sha256Hex identity row (t.objectsOf identity)

theorem promotionInv_empty : PromotionInv sha256Hex .empty where
  orphan _ _ := rfl
  recorded _ _ h := by cases h

/-- A batch that is recordable is recorded. -/
theorem Recorded.append {more : List ImportPromotionObject}
    (h : Recorded sha256Hex identity row objects) (hmore : Recordable identity row more)
    (hnext : advanceImportPromotionFingerprint sha256Hex identity row.rollingFingerprint more =
      .ok next) :
    Recorded sha256Hex identity (appendedRow row more next) (objects ++ more) where
  count := by
    rw [List.length_append]
    change row.recordedCount + more.length = _
    rw [h.count]
    push_cast
    rfl
  ordinals i hi := by
    rw [List.getElem_append]
    split
    · exact h.ordinals i _
    · rename_i hbeyond
      rw [ordinal_of_contiguous hmore.contiguous, hmore.first, h.count]
      omega
  bytes := by
    change row.recordedByteLength + totalBytes more = _
    rw [h.bytes, totalBytes_eq_sum, List.map_append, List.sum_append]
  within := hmore.bytes
  fingerprint := importPromotionFingerprint_append h.fingerprint hnext
  proof := by
    rcases h.proof with hnone | ⟨-, hstate, -⟩
    · exact .inl hnone
    · rw [hmore.staging] at hstate
      cases hstate

/-- One change keeps the invariant of its promotion. -/
theorem recorded_change (h : PromotionInv sha256Hex t)
    (hchange : Change sha256Hex identity t t') :
    (t'.intent identity = none → t'.objectsOf identity = []) ∧
      ∀ row, t'.intent identity = some row →
        Recorded sha256Hex identity row (t'.objectsOf identity) := by
  cases hchange with
  | same hintent hobjects =>
      rw [hintent, hobjects]
      exact ⟨h.orphan identity, h.recorded identity⟩
  | begun objectCount totalByteLength initial hcount hbytes hfresh hfingerprint hintent hobjects =>
      rw [hintent, hobjects, h.orphan identity hfresh]
      refine ⟨fun hnone => absurd hnone (Option.some_ne_none _), fun row hrow => ?_⟩
      cases hrow
      exact ⟨rfl, fun i hi => absurd hi (Nat.not_lt_zero i), rfl, hbytes, hfingerprint, .inl rfl⟩
  | appended row more next hold hrecordable hfingerprint hintent hobjects =>
      rw [hintent, hobjects]
      refine ⟨fun hnone => absurd hnone (Option.some_ne_none _), fun row' hrow' => ?_⟩
      cases hrow'
      exact (h.recorded identity row hold).append hrecordable hfingerprint
  | sealed row hold hstaging hproof hcount hbytes hintent hobjects =>
      rw [hintent, hobjects]
      refine ⟨fun hnone => absurd hnone (Option.some_ne_none _), fun row' hrow' => ?_⟩
      cases hrow'
      have hrecorded := h.recorded identity row hold
      exact ⟨hrecorded.count, hrecorded.ordinals, hrecorded.bytes, hrecorded.within,
        hrecorded.fingerprint, .inr ⟨rfl, rfl, hcount, hbytes⟩⟩

theorem promotionInv_step (call : PromotionCall) (h : PromotionInv sha256Hex t) :
    PromotionInv sha256Hex (step sha256Hex t call) where
  orphan identity := (recorded_change h (step_change call identity)).1
  recorded identity := (recorded_change h (step_change call identity)).2

/-- **Every reachable state has the invariant.** -/
theorem promotionInv_run (calls : List PromotionCall) (h : PromotionInv sha256Hex t) :
    PromotionInv sha256Hex (run (step sha256Hex) t calls) :=
  run_invariant (fun _ call => promotionInv_step call) h calls

/-! ### Appends -/

/-- The last ordinal of a contiguous batch. -/
theorem lastOrdinal_of_contiguous (hnonempty : objects ≠ []) (h : contiguous objects = true) :
    lastOrdinal objects = firstOrdinal objects + (objects.length - 1 : ℕ) := by
  have hlast := List.length_pos_of_ne_nil hnonempty
  rw [lastOrdinal, List.getLast?_eq_getElem?, List.getElem?_eq_getElem (by omega), Option.map_some,
    Option.getD_some, ordinal_of_contiguous h]

/-- **A batch that is stored already ends the list.** -/
theorem Stored.suffix (h : Stored identity t row objects)
    (hrecorded : Recorded sha256Hex identity row (t.objectsOf identity)) :
    objects <:+ t.objectsOf identity := by
  have hlast := h.last
  rw [lastOrdinal_of_contiguous h.nonempty h.contiguous, hrecorded.count] at hlast
  have hpos := List.length_pos_of_ne_nil h.nonempty
  -- the object at `i` is stored at the place that is its ordinal
  have hat : ∀ i (hi : i < objects.length), ∃ k, ∃ hk : k < (t.objectsOf identity).length,
      (t.objectsOf identity)[k] = objects[i] ∧ (k : ℤ) = firstOrdinal objects + i := by
    intro i hi
    have hfound := List.mem_of_find?_eq_some (h.same _ (List.getElem_mem hi))
    obtain ⟨k, hk, heq⟩ := List.getElem_of_mem hfound
    have hordinal := hrecorded.ordinals k hk
    rw [heq, ordinal_of_contiguous h.contiguous] at hordinal
    exact ⟨k, hk, heq, hordinal.symm⟩
  obtain ⟨first, -, -, hfirst⟩ := hat 0 hpos
  have hdrop : objects = (t.objectsOf identity).drop first := by
    refine List.ext_getElem (by rw [List.length_drop]; omega) fun i hi hi' => ?_
    obtain ⟨k, hk, heq, hplace⟩ := hat i hi
    obtain rfl : k = first + i := by omega
    rw [List.getElem_drop, heq]
  rw [hdrop]
  exact List.drop_suffix _ _

/-- An append that succeeds adds the batch to its list, or finds it at the end. -/
theorem append_objects (h : PromotionInv sha256Hex t)
    (happend : appendImportPromotionIntent identity objects snapshot next now t = .ok result) :
    result.1 = .appended ∧ result.2.objectsOf identity = t.objectsOf identity ++ objects ∨
      result = (.replayed, t) ∧ objects <:+ t.objectsOf identity := by
  obtain ⟨row, hrow, ⟨hsame, hstored⟩ | ⟨-, -, hwrite⟩⟩ := append_eq_ok happend
  · exact .inr ⟨hsame, hstored.suffix (h.recorded identity row hrow)⟩
  · rw [hwrite]
    exact .inl ⟨rfl, by rw [objectsOf_append, if_pos rfl]⟩

/-- No call but an append changes a list, and only that of its own promotion. -/
theorem objects_step (call : PromotionCall) (other : ImportPromotionIdentity) :
    (step sha256Hex t call).objectsOf other = t.objectsOf other ∨
      ∃ objects snapshot now next, call = .appendIntent other objects snapshot now ∧
        advanceImportPromotionFingerprint sha256Hex other snapshot.rollingFingerprint objects =
          .ok next ∧
        appendImportPromotionIntent other objects snapshot next now t =
          .ok (.appended, step sha256Hex t call) := by
  have hcases : step sha256Hex t call = t ∨
    callTables sha256Hex t call = .ok (step sha256Hex t call) := step_eq call
  rcases hcases with hsame | hok
  · rw [hsame]
    exact .inl rfl
  generalize step sha256Hex t call = t' at hok
  cases call with
  | claims claims =>
      obtain rfl := pure_eq_ok.mp hok
      exact .inl rfl
  | beginIntent identity objectCount totalByteLength now =>
      simp only [callTables, bind_eq_ok, pure_eq_ok] at hok
      obtain ⟨initial, -, result, hresult, rfl⟩ := hok
      obtain ⟨-, -, -, ⟨_, -, -, -, hsame⟩ | ⟨-, hinsert⟩⟩ := begin_eq_ok hresult
      · rw [hsame]
        exact .inl rfl
      · rw [hinsert]
        exact .inl rfl
  | appendIntent identity objects snapshot now =>
      simp only [callTables, bind_eq_ok, pure_eq_ok] at hok
      obtain ⟨next, hnext, result, hresult, rfl⟩ := hok
      obtain ⟨row, -, ⟨rfl, -⟩ | ⟨-, -, hwrite⟩⟩ := append_eq_ok hresult
      · exact .inl rfl
      · by_cases hother : identity = other
        · subst hother
          rw [hwrite] at hresult ⊢
          exact .inr ⟨objects, snapshot, now, next, rfl, hnext, hresult⟩
        · rw [hwrite, objectsOf_append, if_neg hother, List.append_nil]
          exact .inl rfl
  | sealIntent identity now =>
      simp only [callTables, bind_eq_ok, pure_eq_ok] at hok
      obtain ⟨result, hresult, rfl⟩ := hok
      obtain ⟨row, -, -, ⟨-, hsame⟩ | ⟨-, -, -, -, hwrite⟩⟩ := seal_eq_ok hresult
      · rw [hsame]
        exact .inl rfl
      · rw [hwrite]
        exact .inl rfl

/-- A batch that the holder of a live claim may record. -/
structure Appendable (identity : ImportPromotionIdentity) (t : PromotionTables) (row : IntentRow)
    (objects : List ImportPromotionObject) (now : ℤ) : Prop where
  live : (t.liveClaim identity now).isSome = true
  limit : objects.length ≤ IMPORT_PROMOTION_APPEND_LIMIT
  recordable : Recordable identity row objects
  keys : (objects.map ImportPromotionObject.r2Key).Nodup
  fresh : ∀ stored ∈ t.objects, ∀ object ∈ objects, stored.object.r2Key ≠ object.r2Key

/-- **A batch that may be recorded is appended**, with the fingerprint that is computed from the
snapshot of now. -/
theorem append_ok (h : PromotionInv sha256Hex t) (hrow : t.intent identity = some row)
    (hbatch : Appendable identity t row objects now)
    (hsnapshot : readImportPromotionAppendSnapshot identity t = .ok snapshot)
    (hnext : advanceImportPromotionFingerprint sha256Hex identity snapshot.rollingFingerprint
      objects = .ok next) (hhex : sha256HexPattern next = true) :
    ∃ t', appendImportPromotionIntent identity objects snapshot next now t =
      .ok (.appended, t') := by
  have hrecorded := h.recorded identity row hrow
  have hbefore := hbatch.recordable
  simp only [readImportPromotionAppendSnapshot, bind_eq_ok, orThrow_eq_ok, pure_eq_ok,
    hrow] at hsnapshot
  obtain ⟨-, -, _, hsame, rfl⟩ := hsnapshot
  cases hsame
  obtain ⟨-, hprevious, hvalid, -⟩ := advance_ok_iff.mp hnext
  have hlast := lastOrdinal_of_contiguous hbefore.nonempty hbefore.contiguous
  have hordinals : (objects.map ImportPromotionObject.ordinal).Nodup := by
    have heq : objects.map ImportPromotionObject.ordinal =
        (List.range objects.length).map fun i : ℕ => firstOrdinal objects + i :=
      List.ext_getElem (by simp) fun i hi _ => by
        simp [ordinal_of_contiguous hbefore.contiguous i (by simpa using hi)]
    rw [heq]
    exact List.nodup_range.map fun i j hij => by simpa using hij
  have hrows : _ = Except.ok (t.objects ++ objects.map (IntentObjectRow.mk identity)) :=
    insertObjects_ok hbatch.keys hordinals fun stored hstored object hobject => ?_
  · have hbeyond : ¬ lastOrdinal objects < row.recordedCount := by
      rw [hlast, hbefore.first]
      omega
    refine ⟨{ t with
      objects := t.objects ++ objects.map fun object => ⟨identity, object⟩
      intents := Table.update IntentRow.identity (appendedRow row objects next) t.intents }, ?_⟩
    simp only [appendImportPromotionIntent, requireFingerprint, bind_eq_ok, require_eq_ok,
      orThrow_eq_ok, mapM_eq_ok, Bool.and_eq_true, decide_eq_true_eq]
    refine ⟨(), hprevious, (), hhex, (), hbatch.live, (),
      ⟨List.length_pos_of_ne_nil hbefore.nonempty |>.ne', hbatch.limit⟩, objects,
      List.forall₂_same.mpr hvalid, (), hbefore.contiguous, row, hrow, (), hbefore.last, ?_⟩
    rw [if_neg hbeyond]
    simp only [bind_eq_ok, require_eq_ok, Bool.and_eq_true, decide_eq_true_eq, pure_eq_ok]
    exact ⟨(), ⟨⟨⟨hbefore.staging, hbefore.first⟩, trivial⟩, trivial⟩, (), hbefore.bytes, _, hrows,
      rfl⟩
  · refine ⟨hbatch.fresh stored hstored object hobject, fun hid => ?_⟩
    -- what is stored comes before what is recorded, and the batch after it
    have hmem : stored.object ∈ t.objectsOf identity :=
      List.mem_map.mpr ⟨stored, List.mem_filter.mpr ⟨hstored, decide_eq_true hid⟩, rfl⟩
    obtain ⟨k, hk, hkth⟩ := List.getElem_of_mem hmem
    obtain ⟨i, hi, hith⟩ := List.getElem_of_mem hobject
    have hordinal := hrecorded.ordinals k hk
    rw [hkth] at hordinal
    have hcount := hrecorded.count
    rw [hordinal, ← hith, ordinal_of_contiguous hbefore.contiguous, hbefore.first, hcount]
    omega

/-- A promotion that is declared by the holder of a live claim is begun. -/
theorem begin_ok {objectCount totalByteLength : ℤ} (hfresh : t.intent identity = none)
    (hlive : (t.liveClaim identity now).isSome = true)
    (hinitial : importPromotionInitialFingerprint sha256Hex identity = .ok initial)
    (hhex : sha256HexPattern initial = true)
    (hcount : isSafeInteger objectCount = true ∧ 0 ≤ objectCount)
    (hbytes : 0 ≤ totalByteLength ∧ totalByteLength ≤ IMPORT_PROMOTION_MAX_BYTES) :
    ∃ t', beginImportPromotionIntent identity objectCount totalByteLength initial now t =
      .ok (.begun, t') := by
  have hsafe : isSafeInteger totalByteLength = true := by
    have hmax := hbytes.2
    rw [IMPORT_PROMOTION_MAX_BYTES] at hmax
    rw [isSafeInteger, decide_eq_true_eq, abs_of_nonneg hbytes.1]
    omega
  simp only [importPromotionInitialFingerprint, requireIdentity, bind_eq_ok,
    require_eq_ok] at hinitial
  obtain ⟨-, hidentity, -⟩ := hinitial
  refine ⟨{ t with
    intents := t.intents ++ [begunRow identity objectCount totalByteLength initial] }, ?_⟩
  simp only [beginImportPromotionIntent, requireIdentity, requireFingerprint, bind_eq_ok,
    require_eq_ok, Bool.and_eq_true, decide_eq_true_eq, hfresh, pure_eq_ok]
  exact ⟨(), hidentity, (), hhex, (), hcount, (), ⟨⟨hsafe, hbytes.1⟩, hbytes.2⟩, (), hlive, trivial⟩

/-- A list that is as it was declared is sealed. -/
theorem seal_ok (hrow : t.intent identity = some row)
    (hlive : (t.liveClaim identity now).isSome = true) (hproof : row.proofFingerprint = none)
    (hstaging : row.state = .staging) (hcount : row.recordedCount = row.objectCount)
    (hbytes : row.recordedByteLength = row.totalByteLength) :
    ∃ t', sealImportPromotionIntent identity now t =
      .ok (⟨.sealed, row.rollingFingerprint⟩, t') := by
  refine ⟨{ t with
    intents := Table.update IntentRow.identity (sealedRow row) t.intents }, ?_⟩
  simp only [sealImportPromotionIntent, bind_eq_ok, require_eq_ok, orThrow_eq_ok]
  refine ⟨(), hlive, row, hrow, ?_⟩
  simp only [hproof, bind_eq_ok, require_eq_ok, Bool.and_eq_true, decide_eq_true_eq, pure_eq_ok]
  exact ⟨(), ⟨⟨hstaging, hcount⟩, hbytes⟩, trivial⟩

/-! ### After a seal -/

theorem sealed_step (call : PromotionCall) (h : PromotionInv sha256Hex t)
    (hrow : t.intent identity = some row) (hproof : row.proofFingerprint ≠ none) :
    (step sha256Hex t call).intent identity = some row ∧
      (step sha256Hex t call).objectsOf identity = t.objectsOf identity := by
  have hrecorded := (h.recorded identity row hrow).proof.resolve_left hproof
  have hchange : Change sha256Hex identity t (step sha256Hex t call) := step_change call identity
  cases hchange with
  | same hintent hobjects => exact ⟨hintent.trans hrow, hobjects⟩
  | begun _ _ _ _ _ hfresh =>
      rw [hrow] at hfresh
      cases hfresh
  | appended row' _ _ hold hrecordable =>
      obtain rfl := Option.some.inj (hold.symm.trans hrow)
      have hstate := hrecordable.staging
      rw [hrecorded.2.1] at hstate
      cases hstate
  | sealed row' hold _ hnone =>
      obtain rfl := Option.some.inj (hold.symm.trans hrow)
      exact absurd hnone hproof

/-- **A sealed promotion stays as it is.** -/
theorem sealed_run (calls : List PromotionCall) (h : PromotionInv sha256Hex t)
    (hrow : t.intent identity = some row) (hproof : row.proofFingerprint ≠ none) :
    (run (step sha256Hex) t calls).intent identity = some row ∧
      (run (step sha256Hex) t calls).objectsOf identity = t.objectsOf identity := by
  induction calls generalizing t with
  | nil => exact ⟨hrow, rfl⟩
  | cons call calls ih =>
      obtain ⟨hrow', hobjects⟩ := sealed_step call h hrow hproof
      obtain ⟨hrun, hobjects'⟩ := ih (promotionInv_step call h) hrow'
      exact ⟨hrun, hobjects'.trans hobjects⟩

/-- The declaration of a promotion. -/
def Declared (t : PromotionTables) (identity : ImportPromotionIdentity)
    (objectCount totalByteLength : ℤ) : Prop :=
  ∃ row, t.intent identity = some row ∧ row.objectCount = objectCount ∧
    row.totalByteLength = totalByteLength

variable {objectCount totalByteLength : ℤ}

theorem declared_step (call : PromotionCall)
    (h : Declared t identity objectCount totalByteLength) :
    Declared (step sha256Hex t call) identity objectCount totalByteLength := by
  obtain ⟨row, hrow, hcount, hbytes⟩ := h
  have hchange : Change sha256Hex identity t (step sha256Hex t call) := step_change call identity
  cases hchange with
  | same hintent _ => exact ⟨row, hintent.trans hrow, hcount, hbytes⟩
  | begun _ _ _ _ _ hfresh =>
      rw [hrow] at hfresh
      cases hfresh
  | appended row' _ _ hold _ _ hintent =>
      obtain rfl := Option.some.inj (hold.symm.trans hrow)
      exact ⟨_, hintent, hcount, hbytes⟩
  | sealed row' hold _ _ _ _ hintent =>
      obtain rfl := Option.some.inj (hold.symm.trans hrow)
      exact ⟨_, hintent, hcount, hbytes⟩

/-- What is declared stays declared. -/
theorem declared_run (calls : List PromotionCall)
    (h : Declared t identity objectCount totalByteLength) :
    Declared (run (step sha256Hex) t calls) identity objectCount totalByteLength :=
  @run_invariant _ _ (step sha256Hex) t
    (fun t => Declared t identity objectCount totalByteLength)
    (fun _ call => declared_step call) h calls

theorem declared_begin
    (h : beginImportPromotionIntent identity objectCount totalByteLength initial now t =
      .ok result) : Declared result.2 identity objectCount totalByteLength := by
  obtain ⟨-, -, -, ⟨row, hrow, hcount, hbytes, hsame⟩ | ⟨hfresh, hinsert⟩⟩ := begin_eq_ok h
  · exact ⟨row, hsame ▸ hrow, hcount, hbytes⟩
  · refine ⟨begunRow identity objectCount totalByteLength initial, ?_, rfl, rfl⟩
    rw [hinsert, intent_insert, hfresh, Option.none_or]
    exact if_pos rfl

/-! ### The commitment -/

/-- What a seal that succeeds in a state says. -/
structure SealOf (sha256Hex : String → String) (identity : ImportPromotionIdentity)
    (t : PromotionTables) (result : PromotionSeal × PromotionTables) : Prop where
  /-- All that was declared is recorded. -/
  complete : ∃ row, t.intent identity = some row ∧ row.recordedCount = row.objectCount ∧
    row.recordedByteLength = row.totalByteLength
  /-- The proof is the fingerprint of the stored objects. -/
  proof : importPromotionFingerprint sha256Hex identity (t.objectsOf identity) =
    .ok result.1.proofFingerprint
  /-- From then on, no call changes the objects or the intent. -/
  final : ∀ calls, (run (step sha256Hex) result.2 calls).objectsOf identity = t.objectsOf identity ∧
    ∃ row, (run (step sha256Hex) result.2 calls).intent identity = some row ∧
      row.proofFingerprint = some result.1.proofFingerprint
  /-- Every later seal returns the same proof. -/
  again : ∀ calls now later, sealImportPromotionIntent identity now
      (run (step sha256Hex) result.2 calls) = .ok later →
    later.1.proofFingerprint = result.1.proofFingerprint

section

variable {result : PromotionSeal × PromotionTables} (h : PromotionInv sha256Hex t)
  (hseal : sealImportPromotionIntent identity now t = .ok result)
include h hseal

/-- A seal that succeeds seals the intent it finds, or finds it sealed. -/
theorem seal_row :
    PromotionInv sha256Hex result.2 ∧ result.2.objectsOf identity = t.objectsOf identity ∧
      ∃ row, result.2.intent identity = some row ∧
        row.proofFingerprint = some result.1.proofFingerprint := by
  have hinv : PromotionInv sha256Hex (step sha256Hex t (.sealIntent identity now)) :=
    promotionInv_step _ h
  have hstep : step sha256Hex t (.sealIntent identity now) = result.2 := by
    simp only [step, callTables, hseal]
    rfl
  rw [hstep] at hinv
  obtain ⟨row, hrow, hproof, ⟨hsealed, hsame⟩ | ⟨-, -, -, -, hwrite⟩⟩ := seal_eq_ok hseal
  · rw [hsame]
    exact ⟨h, rfl, row, hrow, by rw [hsealed, hproof]⟩
  · refine ⟨hinv, by rw [hwrite]; rfl, sealedRow row, ?_, by rw [hproof]; rfl⟩
    have hid := intent_identity hrow
    rw [← hid] at hrow ⊢
    rw [hwrite, intent_update (sealedRow row) hrow]
    exact if_pos rfl

theorem sealOf : SealOf sha256Hex identity t result := by
  obtain ⟨hinv, hobjects, row', hrow', hproof'⟩ := seal_row h hseal
  have hfinal : ∀ calls,
      (run (step sha256Hex) result.2 calls).intent identity = some row' ∧
        (run (step sha256Hex) result.2 calls).objectsOf identity = t.objectsOf identity := by
    intro calls
    obtain ⟨hrun, hsame⟩ :=
      sealed_run calls hinv hrow' (by rw [hproof']; exact Option.some_ne_none _)
    exact ⟨hrun, hsame.trans hobjects⟩
  obtain ⟨row, hrow, hproof, hcases⟩ := seal_eq_ok hseal
  have hrecorded := h.recorded identity row hrow
  refine ⟨⟨row, hrow, ?_⟩, ?_, fun calls => ⟨(hfinal calls).2, row', (hfinal calls).1, hproof'⟩,
    fun calls now' later hlater => ?_⟩
  · rcases hcases with ⟨hsealed, -⟩ | ⟨-, -, hcount, hbytes, -⟩
    · have hcomplete := hrecorded.proof.resolve_left (by rw [hsealed]; exact Option.some_ne_none _)
      exact hcomplete.2.2
    · exact ⟨hcount, hbytes⟩
  · rw [hproof]
    exact hrecorded.fingerprint
  · obtain ⟨-, -, last, hlast, hproofLast⟩ := seal_row (promotionInv_run calls hinv) hlater
    -- the row that the later seal leaves is the one that was sealed
    obtain ⟨row₁, hrow₁, hproof₁, hcases₁⟩ := seal_eq_ok hlater
    obtain rfl := Option.some.inj (hrow₁.symm.trans (hfinal calls).1)
    rcases hcases₁ with ⟨hsealed, -⟩ | ⟨hnone, -⟩
    · rw [hproof'] at hsealed
      rw [hproof₁]
      exact (Option.some.inj hsealed).symm
    · rw [hproof'] at hnone
      cases hnone

end

/-- What holds in a state of the system. -/
structure PromotionState (sha256Hex : String → String) (t : PromotionTables) : Prop where
  /-- The stored objects of a promotion are what its intent says. -/
  recorded : ∀ identity row, t.intent identity = some row →
    Recorded sha256Hex identity row (t.objectsOf identity)
  /-- Without an intent there are no objects. -/
  orphan : ∀ identity, t.intent identity = none → t.objectsOf identity = []
  /-- A call that throws changes nothing. -/
  thrown : ∀ call e, callTables sha256Hex t call = .error e → step sha256Hex t call = t
  /-- What a begin that succeeds declares is declared for good. -/
  declared : ∀ identity objectCount totalByteLength initial now result,
    beginImportPromotionIntent identity objectCount totalByteLength initial now t = .ok result →
      ∀ calls, Declared (run (step sha256Hex) result.2 calls) identity objectCount totalByteLength
  /-- A seal that succeeds commits to what is stored. -/
  sealed : ∀ identity now result, sealImportPromotionIntent identity now t = .ok result →
    SealOf sha256Hex identity t result
  /-- An append that succeeds adds the batch to its list, or finds it at the end. -/
  appended : ∀ identity objects snapshot next now result,
    appendImportPromotionIntent identity objects snapshot next now t = .ok result →
      result.1 = .appended ∧ result.2.objectsOf identity = t.objectsOf identity ++ objects ∨
        result = (.replayed, t) ∧ objects <:+ t.objectsOf identity
  /-- No call but an append that adds its batch changes a list. -/
  only : ∀ call identity, (step sha256Hex t call).objectsOf identity = t.objectsOf identity ∨
    ∃ objects snapshot now next, call = .appendIntent identity objects snapshot now ∧
      advanceImportPromotionFingerprint sha256Hex identity snapshot.rollingFingerprint objects =
        .ok next ∧
      appendImportPromotionIntent identity objects snapshot next now t =
        .ok (.appended, step sha256Hex t call)
  /-- What is declared within the limits is begun. -/
  begins : ∀ identity objectCount totalByteLength initial now, t.intent identity = none →
    (t.liveClaim identity now).isSome = true →
    importPromotionInitialFingerprint sha256Hex identity = .ok initial →
    sha256HexPattern initial = true → isSafeInteger objectCount = true ∧ 0 ≤ objectCount →
    0 ≤ totalByteLength ∧ totalByteLength ≤ IMPORT_PROMOTION_MAX_BYTES →
    ∃ t', beginImportPromotionIntent identity objectCount totalByteLength initial now t =
      .ok (.begun, t')
  /-- A batch that may be recorded is appended, from the snapshot of now. -/
  appends : ∀ identity row objects snapshot next now, t.intent identity = some row →
    Appendable identity t row objects now →
    readImportPromotionAppendSnapshot identity t = .ok snapshot →
    advanceImportPromotionFingerprint sha256Hex identity snapshot.rollingFingerprint objects =
      .ok next → sha256HexPattern next = true →
    ∃ t', appendImportPromotionIntent identity objects snapshot next now t = .ok (.appended, t')
  /-- A list that is as it was declared is sealed. -/
  seals : ∀ identity row now, t.intent identity = some row →
    (t.liveClaim identity now).isSome = true → row.proofFingerprint = none →
    row.state = .staging → row.recordedCount = row.objectCount →
    row.recordedByteLength = row.totalByteLength →
    ∃ t', sealImportPromotionIntent identity now t = .ok (⟨.sealed, row.rollingFingerprint⟩, t')

theorem promotionState (h : PromotionInv sha256Hex t) : PromotionState sha256Hex t where
  recorded := h.recorded
  orphan := h.orphan
  thrown call e herror := by rw [step, herror]
  declared _ _ _ _ _ _ hbegin calls := declared_run calls (declared_begin hbegin)
  sealed _ _ _ hseal := sealOf h hseal
  appended _ _ _ _ _ _ happend := append_objects h happend
  only call identity := objects_step call identity
  begins _ _ _ _ _ hfresh hlive hinitial hhex hcount hbytes :=
    begin_ok hfresh hlive hinitial hhex hcount hbytes
  appends _ _ _ _ _ _ hrow hbatch hsnapshot hnext hhex :=
    append_ok h hrow hbatch hsnapshot hnext hhex
  seals _ _ _ hrow hlive hproof hstaging hcount hbytes :=
    seal_ok hrow hlive hproof hstaging hcount hbytes

/-- **A seal commits to exactly what was appended**, in every run; and two promotions with one
proof, also of two mailboxes, have one identity and one list of objects, or SHA-256 has a collision
among the texts that were hashed for them. -/
theorem seal_commits (sha256Hex : String → String) (calls : List PromotionCall) :
    PromotionState sha256Hex (run (step sha256Hex) .empty calls) ∧
      ∀ calls' identity identity' now now' result result',
        sealImportPromotionIntent identity now (run (step sha256Hex) .empty calls) = .ok result →
        sealImportPromotionIntent identity' now' (run (step sha256Hex) .empty calls') =
          .ok result' →
        result.1.proofFingerprint = result'.1.proofFingerprint →
          identity = identity' ∧
              (run (step sha256Hex) .empty calls).objectsOf identity =
                (run (step sha256Hex) .empty calls').objectsOf identity' ∨
            (promotionChain sha256Hex).Collision
              ((promotionChain sha256Hex).texts identity
                ((run (step sha256Hex) .empty calls).objectsOf identity))
              ((promotionChain sha256Hex).texts identity'
                ((run (step sha256Hex) .empty calls').objectsOf identity')) := by
  have h : PromotionInv sha256Hex (run (step sha256Hex) .empty calls) :=
    promotionInv_run calls promotionInv_empty
  refine ⟨promotionState h, ?_⟩
  intro calls' identity identity' now now' result result' hseal hseal' hsame
  have h' : PromotionInv sha256Hex (run (step sha256Hex) .empty calls') :=
    promotionInv_run calls' promotionInv_empty
  have hproof := (sealOf h hseal).proof
  rw [hsame] at hproof
  exact fingerprint_binding hproof (sealOf h' hseal').proof

end MailPortal.Import
