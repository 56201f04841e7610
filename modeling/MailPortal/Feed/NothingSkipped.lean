import MailPortal.Feed.Controller

/-!
# No Change is Passed Over

In every state that a controller comes to, the queries about each change up to its cursor have been
read again, whatever requests fail, come late or are superseded. One request at a time is not
aborted, and while the controller is active and the browser is online the next one is under way or
due.

Main results:

* `invalidatesQuery_iff` : a batch of changes is as good as its changes one by one.
* `FeedStep.moves` : every step comes to a few moves.
* `FeedMove.keeps` : what every move keeps.
* `nothing_skipped` : the cursors that are kept.
* `never_asleep` : there is a next request.
* `stopped_is_quiet` : a controller that is stopped does nothing.
-/

namespace MailPortal.Feed

open Failure

variable {normalizeNFC : String → String} {w w' : FeedWorld}

/-! ### Batches and texts -/

/-- **A batch of changes is as good as its changes one by one.** -/
theorem invalidatesQuery_iff {mailboxId : String} {changes : List MailboxChange} {key : QueryKey} :
    invalidatesQuery mailboxId changes key = true ↔
      ∃ change ∈ changes, invalidatesQuery mailboxId [change] key = true := by
  simp only [invalidatesQuery, List.flatMap_singleton, List.any_cons, List.any_nil, Bool.or_false]
  split
  · simp only [Bool.or_eq_true, Bool.and_eq_true, List.any_eq_true]
    constructor
    · rintro (⟨change, hchange, hmessage⟩ | ⟨⟨change, hchange, hattachment⟩, hprojection⟩)
      · exact ⟨change, hchange, .inl hmessage⟩
      · exact ⟨change, hchange, .inr ⟨hattachment, hprojection⟩⟩
    · rintro ⟨change, hchange, hmessage | ⟨hattachment, hprojection⟩⟩
      · exact .inl ⟨change, hchange, hmessage⟩
      · exact .inr ⟨⟨change, hchange, hattachment⟩, hprojection⟩
  · simp only [Bool.and_eq_true, List.any_eq_true, List.mem_flatMap]
    constructor
    · rintro ⟨⟨⟨root, ⟨change, hchange, hroot⟩, hkey⟩, hmailbox⟩, hbytes⟩
      exact ⟨change, hchange, ⟨⟨root, hroot, hkey⟩, hmailbox⟩, hbytes⟩
    · rintro ⟨change, hchange, ⟨⟨root, hroot, hkey⟩, hmailbox⟩, hbytes⟩
      exact ⟨⟨⟨root, ⟨change, hchange, hroot⟩, hkey⟩, hmailbox⟩, hbytes⟩

/-- What is stored is read. -/
theorem readCursor_written {cursor : String} {n : ℤ}
    (h : decodeMailboxChangeCursor cursor = .ok n) :
    readCursor (some (writtenCursor cursor)) = some cursor := by
  have hplain : (Json.obj [("version", .ofInt 1), ("cursor", .str cursor)]).Plain := by
    have hkeys : (["version", "cursor"] : List String).Nodup := by decide
    refine Json.plain_obj hkeys ?_
    simp only [List.forall_mem_cons]
    have hone : Json.isSafe 1 = true := rfl
    exact ⟨Json.plain_ofInt hone, Json.plain_str _, nofun⟩
  have hversion : Json.asSafeInteger (.ofInt 1) = some 1 := Json.asSafeInteger_ofInt rfl
  rw [readCursor, writtenCursor, Option.bind_some, Json.parse_stringify hplain]
  simp [objectKeys, Json.stringAt, Json.integerAt, Json.get?, joinKeys, hversion, h, Except.isOk,
    Except.toBool]

theorem readCursor_valid {stored : Option String} {cursor : String}
    (h : readCursor stored = some cursor) : ∃ n, decodeMailboxChangeCursor cursor = .ok n := by
  obtain ⟨parsed, -, h⟩ := Option.bind_eq_some_iff.mp h
  obtain ⟨keys, -, h⟩ := Option.bind_eq_some_iff.mp h
  obtain ⟨read, -, h⟩ := Option.bind_eq_some_iff.mp h
  split at h
  · rename_i hvalid
    obtain rfl := Option.some.inj h
    cases hread : decodeMailboxChangeCursor read with
    | ok n => exact ⟨n, rfl⟩
    | error e =>
        rw [hread] at hvalid
        simp [Except.isOk, Except.toBool] at hvalid
  · cases h

/-! ### Cursors -/

/-- The changes up to this cursor have been read again, from the first number on. -/
def Covered (w : FeedWorld) (cursor : String) : Prop :=
  ∃ n baseline, decodeMailboxChangeCursor cursor = .ok n ∧ w.baseline = some baseline ∧
    baseline ≤ n ∧ (n = baseline ∨ n ≤ maxSequence w.table) ∧
    ∀ row ∈ w.table, baseline < row.sequence → row.sequence ≤ n →
      ∃ changes ∈ w.invalidated, ∃ change ∈ changes, change.row = row

/-- The page is the answer to this cursor. -/
structure Answers (table : List MailboxChangeRow) (sent : Option String)
    (page : MailboxChangePage) : Prop where
  bound : ∃ n, decodeMailboxChangeCursor page.nextCursor = .ok n ∧ n ≤ maxSequence table
  rows : ∀ cursor, sent = some cursor → ∃ after n, decodeMailboxChangeCursor cursor = .ok after ∧
    decodeMailboxChangeCursor page.nextCursor = .ok n ∧ after ≤ n ∧
    ∀ row ∈ table, after < row.sequence → row.sequence ≤ n →
      ∃ change ∈ page.changes, change.row = row

theorem answers_of_exchange {table : List MailboxChangeRow} {sent : Option String}
    {page : MailboxChangePage} (h : Feeds normalizeNFC table)
    (hpage : exchange normalizeNFC table sent = .ok page) : Answers table sent page := by
  cases sent with
  | none =>
      obtain ⟨made, hmade, -, hcursor⟩ := exchange_none h
      obtain rfl := Except.ok.inj (hpage.symm.trans hmade)
      exact ⟨⟨_, hcursor, le_rfl⟩, fun _ hnone => by cases hnone⟩
  | some cursor =>
      obtain ⟨after, hcursor, hle, hisPage⟩ := exchange_eq_ok h hpage
      obtain ⟨hlower, hupper⟩ := lastSequence_le hle 100
      refine ⟨⟨_, hisPage.cursor, hupper⟩, fun _ hsame => ?_⟩
      cases hsame
      refine ⟨after, _, hcursor, hisPage.cursor, hlower, fun row hrow hafter hn => ?_⟩
      have hmem := mem_rowsAfter.mpr ⟨hrow, hafter⟩
      rw [← hisPage.split h (List.prefix_refl _) hle] at hmem
      rcases List.mem_append.mp hmem with hmem | hmem
      · exact List.mem_map.mp hmem
      · exact absurd hn (mem_rowsAfter.mp hmem).2.not_ge

/-- What is added is behind what a page or a cursor is about. -/
theorem mem_of_le {table rows : List MailboxChangeRow} {row : MailboxChangeRow} {n : ℤ}
    (hfeeds : Feeds normalizeNFC (table ++ rows)) (hbound : n ≤ maxSequence table)
    (hrow : row ∈ table ++ rows) (hle : row.sequence ≤ n) : row ∈ table := by
  refine (List.mem_append.mp hrow).resolve_right fun hmore => ?_
  exact absurd hle (hbound.trans_lt (hfeeds.maxSequence_lt hmore)).not_ge

theorem Answers.grow {table rows : List MailboxChangeRow} {sent : Option String}
    {page : MailboxChangePage} (h : Answers table sent page)
    (hfeeds : Feeds normalizeNFC (table ++ rows)) : Answers (table ++ rows) sent page := by
  obtain ⟨⟨m, hm, hbound⟩, hrows⟩ := h
  refine ⟨⟨m, hm, hbound.trans (maxSequence_mono hfeeds (List.prefix_append _ _))⟩,
    fun cursor hsent => ?_⟩
  obtain ⟨after, n, hafter, hn, hle, hall⟩ := hrows cursor hsent
  obtain rfl : m = n := Except.ok.inj (hm.symm.trans hn)
  exact ⟨after, m, hafter, hn, hle, fun row hrow hlt hnle =>
    hall row (mem_of_le hfeeds hbound hrow hnle) hlt hnle⟩

theorem Covered.grow {cursor : String} {rows : List MailboxChangeRow} (h : Covered w cursor)
    (hfeeds : Feeds normalizeNFC (w.table ++ rows)) :
    Covered { w with table := w.table ++ rows } cursor := by
  obtain ⟨n, baseline, hn, hbaseline, hle, hbound, hall⟩ := h
  refine ⟨n, baseline, hn, hbaseline, hle, hbound.imp_right fun hbound => hbound.trans
    (maxSequence_mono hfeeds (List.prefix_append _ _)), fun row hrow hlt hnle => ?_⟩
  rcases hbound with rfl | hbound
  · exact absurd hnle hlt.not_ge
  · exact hall row (mem_of_le hfeeds hbound hrow hnle) hlt hnle

/-- What is said of a cursor depends on the changes alone. -/
theorem Covered.congr {cursor : String} (h : Covered w cursor) (htable : w'.table = w.table)
    (hinvalidated : ∀ changes ∈ w.invalidated, changes ∈ w'.invalidated)
    (hbaseline : w'.baseline = w.baseline) : Covered w' cursor := by
  obtain ⟨n, baseline, hn, hstart, hle, hbound, hall⟩ := h
  refine ⟨n, baseline, hn, hbaseline.trans hstart, hle, htable ▸ hbound,
    fun row hrow hlt hnle => ?_⟩
  obtain ⟨changes, hchanges, hrow⟩ := hall row (htable ▸ hrow) hlt hnle
  exact ⟨changes, hinvalidated changes hchanges, hrow⟩

/-! ### Moves -/

/-- What is known of requests and cursors, but for the one that is stored. -/
def FeedWorld.record (w : FeedWorld) : List MailboxChangeRow × List Poll × Option ℕ × List ℕ ×
    Option String × List (List MailboxChange) × Option ℤ :=
  (w.table, w.polls, w.controller, w.aborted, w.cursor, w.invalidated, w.baseline)

/-- What the turns of a controller come to. -/
inductive FeedMove (normalizeNFC : String → String) (w : FeedWorld) : FeedWorld → Prop
  /-- Timers and flags; a stored cursor may be removed. -/
  | aside (later : FeedWorld) (hrecord : later.record = w.record) (hnext : w.nextId ≤ later.nextId)
      (hactive : later.active = true → w.active = true)
      (hstored : later.stored = w.stored ∨ later.stored = none) : FeedMove normalizeNFC w later
  | request (hactive : w.active = true) (hnone : w.controller = none) :
      FeedMove normalizeNFC w
        { w with controller := some w.nextId, nextId := w.nextId + 1,
                 polls := ⟨w.nextId, w.cursor, .requesting⟩ :: w.polls }
  | abort : FeedMove normalizeNFC w
      { w with aborted := w.controller.toList ++ w.aborted, controller := none }
  | change (rows) (h : Feeds normalizeNFC (w.table ++ rows)) :
      FeedMove normalizeNFC w { w with table := w.table ++ rows }
  | answer (token sent page) (hmem : ⟨token, sent, .requesting⟩ ∈ w.polls)
      (hpage : exchange normalizeNFC w.table sent = .ok page) :
      FeedMove normalizeNFC w (w.setStage token (.answered page))
  | invalidate (token sent page) (hmem : ⟨token, sent, .answered page⟩ ∈ w.polls)
      (hactive : w.active = true) : FeedMove normalizeNFC w (w.setStage token (.invalidating page))
  | invalidated (changes) :
      FeedMove normalizeNFC w { w with invalidated := changes :: w.invalidated }
  | finish (token) : FeedMove normalizeNFC w
      { w with polls := w.polls.filter fun p => p.token ≠ token,
               controller := if w.controller = some token then none else w.controller }
  /-- A `poll` takes the cursor of its page, and ends. -/
  | accept (token sent page stores) (hmem : ⟨token, sent, .invalidating page⟩ ∈ w.polls)
      (hactive : w.active = true) (hcontroller : w.controller = some token)
      (hdone : page.changes ∈ w.invalidated) : FeedMove normalizeNFC w
      { w.accept page stores with polls := w.polls.filter fun p => p.token ≠ token,
                                  controller := none }

/-- A number of moves. -/
abbrev FeedMoves (normalizeNFC : String → String) : FeedWorld → FeedWorld → Prop :=
  Relation.ReflTransGen (FeedMove normalizeNFC)

theorem clearTimer_eq (w : FeedWorld) : w.clearTimer =
    { w with timer := none, timers := w.clearTimer.timers } := by
  rw [FeedWorld.clearTimer]
  split
  · rename_i hnone
    rw [← hnone]
  · rfl

theorem moves_after {later : FeedWorld} (hmoves : FeedMoves normalizeNFC later w')
    (hrecord : later.record = w.record) (hnext : w.nextId ≤ later.nextId)
    (hactive : later.active = true → w.active = true)
    (hstored : later.stored = w.stored ∨ later.stored = none) : FeedMoves normalizeNFC w w' :=
  .head (.aside later hrecord hnext hactive hstored) hmoves

theorem moves_clearTimer (w : FeedWorld) : FeedMoves normalizeNFC w w.clearTimer := by
  rw [clearTimer_eq]
  exact moves_after .refl rfl le_rfl id (.inl rfl)

theorem moves_schedule (w : FeedWorld) : FeedMoves normalizeNFC w w.schedule := by
  rw [FeedWorld.schedule]
  split
  · exact .refl
  · exact (moves_clearTimer w).trans (moves_after .refl rfl (Nat.le_succ _) id (.inl rfl))

theorem moves_poll (w : FeedWorld) : FeedMoves normalizeNFC w w.poll := by
  rw [FeedWorld.poll]
  split
  · exact .refl
  · rename_i hbusy
    simp only [Bool.or_eq_true, not_or, Bool.not_eq_true', Bool.not_eq_false,
      Option.not_isSome_iff_eq_none] at hbusy
    obtain ⟨⟨hactive, -⟩, hnone⟩ := hbusy
    refine (moves_clearTimer w).tail ?_
    rw [clearTimer_eq]
    exact .request hactive hnone

theorem moves_pollImmediately (w : FeedWorld) : FeedMoves normalizeNFC w w.pollImmediately := by
  rw [FeedWorld.pollImmediately]
  split
  · exact .refl
  · exact (moves_clearTimer w).trans (moves_poll _)

theorem moves_visibility (w : FeedWorld) : FeedMoves normalizeNFC w w.handleVisibilityChange := by
  rw [FeedWorld.handleVisibilityChange]
  split
  · exact .refl
  · split
    · exact moves_pollImmediately w
    · exact moves_schedule w

theorem moves_stop (w : FeedWorld) : FeedMoves normalizeNFC w w.stop := by
  rw [FeedWorld.stop]
  split
  · exact .refl
  · refine .tail (moves_after (moves_clearTimer { w with started := false, active := false })
      rfl le_rfl (fun h => by cases h) (.inl rfl)) .abort

theorem moves_settle (w : FeedWorld) (token : ℕ) : FeedMoves normalizeNFC w (w.settle token) :=
  .head (.finish token) (moves_schedule _)

theorem moves_caught (w : FeedWorld) (token : ℕ) (removes : Bool) (failure : RequestFailure) :
    FeedMoves normalizeNFC w (w.caught token removes failure) := by
  have hinactive : FeedMoves normalizeNFC w ({ w with active := false } : FeedWorld).clearTimer :=
    moves_after (moves_clearTimer _) rfl le_rfl (fun h => by cases h) (.inl rfl)
  cases failure with
  | unauthorized => exact hinactive
  | forbidden =>
      refine hinactive.trans (moves_after .refl rfl le_rfl id ?_)
      cases removes with
      | false => exact .inl rfl
      | true => exact .inr rfl
  | other =>
      rw [FeedWorld.caught]
      split
      · exact moves_after .refl rfl le_rfl id (.inl rfl)
      · exact .refl

/-- **Every step comes to a few moves.** -/
theorem FeedStep.moves (hstep : FeedStep normalizeNFC w w') : FeedMoves normalizeNFC w w' := by
  cases hstep with
  | stop => exact moves_stop w
  | focus => exact moves_pollImmediately w
  | visibility visible => exact moves_after (moves_visibility _) rfl le_rfl id (.inl rfl)
  | disconnect => exact moves_after .refl rfl le_rfl id (.inl rfl)
  | connect => exact moves_after .refl rfl le_rfl id (.inl rfl)
  | onlineEvent => exact moves_after (moves_pollImmediately _) rfl le_rfl id (.inl rfl)
  | fire timer => exact moves_after (moves_poll _) rfl le_rfl id (.inl rfl)
  | change rows hfeeds => exact .single (.change rows hfeeds)
  | answer token sent page hmem hpage => exact .single (.answer token sent page hmem hpage)
  | resume token sent page hmem =>
      rw [FeedWorld.resume]
      split
      · rename_i hcurrent
        exact .single (.invalidate token sent page hmem (Bool.and_eq_true_iff.mp hcurrent).1)
      · exact moves_settle w token
  | invalidationDone token sent page stores hmem =>
      refine .head (.invalidated page.changes) ?_
      rw [FeedWorld.invalidationDone]
      split
      · rename_i hcurrent
        obtain ⟨hactive, hcontroller⟩ := Bool.and_eq_true_iff.mp hcurrent
        have hcontroller : w.controller = some token := of_decide_eq_true hcontroller
        refine .head (.accept token sent page stores hmem hactive hcontroller
          List.mem_cons_self) ?_
        -- the cursor is taken first, and the `poll` ends then
        rw [FeedWorld.settle, FeedWorld.accept, if_pos hcontroller]
        exact moves_schedule _
      · exact moves_settle _ token
  | reject p failure removes =>
      exact (moves_caught w p.token removes failure).trans (moves_settle _ p.token)

/-! ### What is kept -/

/-- The page that a `poll` has. -/
def PollStage.page : PollStage → Option MailboxChangePage
  | .requesting => none
  | .answered page => some page
  | .invalidating page => some page

/-- What is known of the requests and of the cursors. -/
structure Tracked (normalizeNFC : String → String) (w : FeedWorld) : Prop where
  feeds : Feeds normalizeNFC w.table
  fresh : ∀ p ∈ w.polls, p.token < w.nextId
  nodup : (w.polls.map Poll.token).Nodup
  live : ∀ p ∈ w.polls, w.controller = some p.token ∨ p.token ∈ w.aborted
  owned : ∀ token, w.controller = some token → ∃ p ∈ w.polls, p.token = token
  sent : ∀ p ∈ w.polls, w.controller = some p.token → p.sent = w.cursor
  answers : ∀ p ∈ w.polls, ∀ page, p.stage.page = some page → Answers w.table p.sent page
  covered : ∀ cursor, w.cursor = some cursor → Covered w cursor
  blank : w.cursor = none → w.baseline = none
  stored : ∀ cursor, readCursor w.stored = some cursor → Covered w cursor

section

variable (h : Tracked normalizeNFC w)
include h

theorem Tracked.aside (hrecord : w'.record = w.record) (hnext : w.nextId ≤ w'.nextId)
    (hstored : w'.stored = w.stored ∨ w'.stored = none) : Tracked normalizeNFC w' := by
  cases w
  cases w'
  simp only [FeedWorld.record, Prod.mk.injEq] at hrecord
  obtain ⟨rfl, rfl, rfl, rfl, rfl, rfl, rfl⟩ := hrecord
  exact { h with
    fresh := fun p hp => (h.fresh p hp).trans_le hnext
    stored := fun cursor hread => by
      rcases hstored with hsame | hnone
      · exact h.stored cursor (hsame ▸ hread)
      · rw [hnone] at hread
        cases hread }

theorem Tracked.request (hnone : w.controller = none) :
    Tracked normalizeNFC
      { w with controller := some w.nextId, nextId := w.nextId + 1,
               polls := ⟨w.nextId, w.cursor, .requesting⟩ :: w.polls } := by
  have hold : ∀ p ∈ w.polls, p.token ≠ w.nextId := fun p hp => (h.fresh p hp).ne
  exact {
    feeds := h.feeds
    fresh := List.forall_mem_cons.mpr ⟨Nat.lt_succ_self _, fun p hp =>
      (h.fresh p hp).trans (Nat.lt_succ_self _)⟩
    nodup := by
      refine List.nodup_cons.mpr ⟨fun hmem => ?_, h.nodup⟩
      obtain ⟨p, hp, htoken⟩ := List.mem_map.mp hmem
      exact hold p hp htoken
    live := List.forall_mem_cons.mpr ⟨.inl rfl, fun p hp => .inr ((h.live p hp).resolve_left
      fun hsome => by rw [hnone] at hsome; cases hsome)⟩
    owned := fun token htoken => ⟨_, List.mem_cons_self, Option.some.inj htoken⟩
    sent := List.forall_mem_cons.mpr ⟨fun _ => rfl, fun p hp htoken =>
      absurd (Option.some.inj htoken).symm (hold p hp)⟩
    answers := List.forall_mem_cons.mpr ⟨(fun _ hpage => by cases hpage), h.answers⟩
    covered := h.covered
    blank := h.blank
    stored := h.stored }

theorem Tracked.abort : Tracked normalizeNFC
    { w with aborted := w.controller.toList ++ w.aborted, controller := none } := { h with
  live := fun p hp => .inr <| by
    rcases h.live p hp with hsome | haborted
    · rw [hsome]
      exact List.mem_cons_self
    · exact List.mem_append_right _ haborted
  owned := fun _ hother => by cases hother
  sent := fun _ _ hother => by cases hother }

/-- A `poll` has another page, or none. -/
theorem Tracked.setStage {token : ℕ} {sent : Option String} {old stage : PollStage}
    (hmem : ⟨token, sent, old⟩ ∈ w.polls)
    (hpage : ∀ page, stage.page = some page → Answers w.table sent page) :
    Tracked normalizeNFC (w.setStage token stage) := by
  have htoken : ∀ p : Poll, (if p.token = token then { p with stage } else p).token = p.token := by
    intro p
    split <;> rfl
  have hsent : ∀ p : Poll, (if p.token = token then { p with stage } else p).sent = p.sent := by
    intro p
    split <;> rfl
  have htokens : (w.setStage token stage).polls.map Poll.token = w.polls.map Poll.token := by
    rw [FeedWorld.setStage, List.map_map]
    exact List.map_congr_left fun p _ => htoken p
  exact { h with
    fresh := List.forall_mem_map.mpr fun p hp => (htoken p).symm ▸ h.fresh p hp
    nodup := htokens ▸ h.nodup
    live := List.forall_mem_map.mpr fun p hp => (htoken p).symm ▸ h.live p hp
    owned := fun other hother => by
      obtain ⟨p, hp, rfl⟩ := h.owned other hother
      exact ⟨_, List.mem_map_of_mem hp, htoken p⟩
    sent := List.forall_mem_map.mpr fun p hp hcontroller => by
      rw [htoken] at hcontroller
      exact (hsent p).trans (h.sent p hp hcontroller)
    answers := List.forall_mem_map.mpr fun p hp page hstage => by
      rw [hsent]
      split at hstage
      · rename_i hsame
        -- the tokens are told apart
        rw [List.inj_on_of_nodup_map h.nodup hp hmem hsame]
        exact hpage page hstage
      · exact h.answers p hp page hstage }

end

theorem mem_others {token : ℕ} {p : Poll} :
    p ∈ w.polls.filter (fun p => p.token ≠ token) ↔ p ∈ w.polls ∧ p.token ≠ token := by
  rw [List.mem_filter, decide_eq_true_eq]

/-- A `poll` ends. -/
theorem Tracked.finish (h : Tracked normalizeNFC w) (token : ℕ) : Tracked normalizeNFC
    { w with polls := w.polls.filter fun p => p.token ≠ token,
             controller := if w.controller = some token then none else w.controller } where
  feeds := h.feeds
  fresh p hp := h.fresh p (mem_others.mp hp).1
  nodup := h.nodup.sublist (List.filter_sublist.map _)
  live p hp := by
    obtain ⟨hp, hne⟩ := mem_others.mp hp
    refine (h.live p hp).imp_left fun hcontroller => ?_
    rw [if_neg fun hsame => hne (Option.some.inj (hcontroller.symm.trans hsame))]
    exact hcontroller
  owned other hother := by
    dsimp only at hother
    split at hother
    · cases hother
    · rename_i hne
      obtain ⟨p, hp, rfl⟩ := h.owned other hother
      exact ⟨p, mem_others.mpr ⟨hp, fun hsame => hne (hsame ▸ hother)⟩, rfl⟩
  sent p hp hcontroller := by
    dsimp only at hcontroller
    split at hcontroller
    · cases hcontroller
    · exact h.sent p (mem_others.mp hp).1 hcontroller
  answers p hp := h.answers p (mem_others.mp hp).1
  covered := h.covered
  blank := h.blank
  stored := h.stored

/-- **The cursor of a page may be taken**, once the queries about its changes have been read
again. -/
theorem covered_accept {page : MailboxChangePage} {stores : Bool} (h : Tracked normalizeNFC w)
    (hpage : Answers w.table w.cursor page) (hdone : page.changes ∈ w.invalidated) :
    Covered (w.accept page stores) page.nextCursor := by
  obtain ⟨m, hm, hbound⟩ := hpage.bound
  cases hcursor : w.cursor with
  | none =>
      refine ⟨m, m, hm, ?_, le_rfl, .inl rfl, fun row _ hlt hle => absurd hle hlt.not_ge⟩
      rw [FeedWorld.accept, h.blank hcursor, hm]
      rfl
  | some cursor =>
      obtain ⟨n, baseline, hn, hbaseline, hle, -, hall⟩ := h.covered cursor hcursor
      obtain ⟨after, last, hafter, hlast, hmono, hrows⟩ := hpage.rows cursor hcursor
      obtain rfl : n = after := Except.ok.inj (hn.symm.trans hafter)
      obtain rfl : m = last := Except.ok.inj (hm.symm.trans hlast)
      refine ⟨m, baseline, hm, ?_, hle.trans hmono, .inr hbound, fun row hrow hlt hrowle => ?_⟩
      · rw [FeedWorld.accept, hbaseline]
        rfl
      · by_cases hold : row.sequence ≤ n
        · exact hall row hrow hlt hold
        · obtain ⟨change, hchange, hsame⟩ := hrows row hrow (not_le.mp hold) hrowle
          exact ⟨page.changes, hdone, change, hchange, hsame⟩

/-- The baseline stays. -/
theorem Covered.accept {page : MailboxChangePage} {stores : Bool} {cursor : String}
    (h : Covered w cursor) : Covered (w.accept page stores) cursor := by
  obtain ⟨n, baseline, hn, hbaseline, hrest⟩ := h
  refine ⟨n, baseline, hn, ?_, hrest⟩
  rw [FeedWorld.accept, hbaseline]
  rfl

/-- The cursor of a page is taken, when no `poll` is the one. -/
theorem Tracked.accept {page : MailboxChangePage} {stores : Bool} (h : Tracked normalizeNFC w)
    (hnone : w.controller = none) (hpage : Answers w.table w.cursor page)
    (hdone : page.changes ∈ w.invalidated) : Tracked normalizeNFC (w.accept page stores) := by
  have hcovered : Covered (w.accept page stores) page.nextCursor := covered_accept h hpage hdone
  exact {
    feeds := h.feeds
    fresh := h.fresh
    nodup := h.nodup
    live := h.live
    owned := h.owned
    sent := fun p _ hcontroller => by
      have hcontroller : w.controller = some p.token := hcontroller
      rw [hnone] at hcontroller
      cases hcontroller
    answers := h.answers
    covered := fun cursor hcursor => Option.some.inj hcursor ▸ hcovered
    blank := fun hcursor => by cases hcursor
    stored := fun cursor hread => by
      cases stores with
      | false => exact (h.stored cursor hread).accept
      | true =>
          obtain ⟨n, hn, -⟩ := hpage.bound
          exact Option.some.inj ((readCursor_written hn).symm.trans hread) ▸ hcovered }

/-- **What every move keeps.** -/
theorem FeedMove.keeps (hmove : FeedMove normalizeNFC w w') (h : Tracked normalizeNFC w) :
    Tracked normalizeNFC w' := by
  cases hmove with
  | aside _ hrecord hnext _ hstored => exact h.aside hrecord hnext hstored
  | request _ hnone => exact h.request hnone
  | abort => exact h.abort
  | change rows hfeeds =>
      exact { h with
        feeds := hfeeds
        answers := fun p hp page hpage => (h.answers p hp page hpage).grow hfeeds
        covered := fun cursor hcursor => (h.covered cursor hcursor).grow hfeeds
        stored := fun cursor hread => (h.stored cursor hread).grow hfeeds }
  | answer token sent page hmem hpage =>
      refine h.setStage hmem fun answered hanswered => ?_
      cases hanswered
      exact answers_of_exchange h.feeds hpage
  | invalidate token sent page hmem => exact h.setStage hmem (h.answers _ hmem)
  | invalidated changes =>
      exact { h with
        covered := fun cursor hcursor =>
          (h.covered cursor hcursor).congr rfl (fun _ h => List.mem_cons_of_mem _ h) rfl
        stored := fun cursor hread =>
          (h.stored cursor hread).congr rfl (fun _ h => List.mem_cons_of_mem _ h) rfl }
  | finish token => exact h.finish token
  | accept token sent page stores hmem hactive hcontroller hdone =>
      have hsent : sent = w.cursor := h.sent _ hmem hcontroller
      have hpage : Answers w.table w.cursor page := hsent ▸ h.answers _ hmem page rfl
      have hfinish := h.finish token
      rw [if_pos hcontroller] at hfinish
      exact hfinish.accept rfl hpage hdone

theorem moves_keep (hmoves : FeedMoves normalizeNFC w w') (h : Tracked normalizeNFC w) :
    Tracked normalizeNFC w' := by
  induction hmoves with
  | refl => exact h
  | tail _ hmove ih => exact hmove.keeps ih

/-! ### Timers -/

/-- The only timer is the one that is known. -/
def Timed (w : FeedWorld) : Prop := ∀ timer ∈ w.timers, w.timer = some timer.1

/-- The next request is under way or due. -/
def Awake (w : FeedWorld) : Prop :=
  w.active = true → w.online = true →
    w.controller.isSome = true ∨ w.announced = true ∨ w.timers ≠ []

/-- Of the timers. -/
structure Due (w : FeedWorld) : Prop where
  timed : Timed w
  awake : Awake w

theorem Timed.clearTimer (h : Timed w) : w.clearTimer.timers = [] := by
  rw [FeedWorld.clearTimer]
  split
  · rename_i hnone
    refine List.eq_nil_iff_forall_not_mem.mpr fun timer htimer => ?_
    have hsome := h timer htimer
    rw [hnone] at hsome
    cases hsome
  · rename_i id hid
    refine List.filter_eq_nil_iff.mpr fun timer htimer hne => ?_
    have hsome := (h timer htimer).symm.trans hid
    exact of_decide_eq_true hne (Option.some.inj hsome)

theorem Timed.cleared (h : Timed w) : Timed w.clearTimer := by
  intro timer htimer
  rw [h.clearTimer] at htimer
  cases htimer

/-- Nothing is to be done, when the controller is not active or the browser not online. -/
theorem awake_of_idle (h : (!w.active || !w.online) = true) : Awake w := by
  intro hactive honline
  rw [hactive, honline] at h
  cases h

theorem Timed.schedule (h : Timed w) : Due w.schedule := by
  rw [FeedWorld.schedule]
  split
  · rename_i hidle
    exact ⟨h, awake_of_idle hidle⟩
  · refine ⟨fun timer htimer => ?_, fun _ _ => .inr (.inr (List.cons_ne_nil _ _))⟩
    have hnew : timer ∈ (w.clearTimer.nextId, w.clearTimer.delay) :: w.clearTimer.timers := htimer
    rw [h.clearTimer] at hnew
    obtain rfl := List.mem_singleton.mp hnew
    rfl

theorem Timed.poll (h : Timed w) : Due w.poll := by
  rw [FeedWorld.poll]
  split
  · rename_i hidle
    rcases Bool.or_eq_true_iff.mp hidle with hidle | hbusy
    · exact ⟨h, awake_of_idle hidle⟩
    · exact ⟨h, fun _ _ => .inl hbusy⟩
  · exact ⟨h.cleared, fun _ _ => .inl rfl⟩

theorem Timed.pollImmediately (h : Timed w) : Due w.pollImmediately := by
  rw [FeedWorld.pollImmediately]
  split
  · rename_i hidle
    exact ⟨h, awake_of_idle hidle⟩
  · exact h.cleared.poll

theorem Timed.visibility (h : Timed w) : Due w.handleVisibilityChange := by
  rw [FeedWorld.handleVisibilityChange]
  split
  · rename_i hidle
    exact ⟨h, awake_of_idle hidle⟩
  · split
    · exact h.pollImmediately
    · exact h.schedule

theorem Timed.caught (h : Timed w) (token : ℕ) (removes : Bool) (failure : RequestFailure) :
    Timed (w.caught token removes failure) := by
  have hinactive : Timed { w with active := false } := h
  cases failure with
  | unauthorized => exact hinactive.cleared
  | forbidden => exact hinactive.cleared
  | other =>
      rw [FeedWorld.caught]
      split
      · exact h
      · exact h

theorem FeedStep.due (hstep : FeedStep normalizeNFC w w') (h : Due w) : Due w' := by
  cases hstep with
  | stop =>
      rw [FeedWorld.stop]
      split
      · exact h
      · have htimed := Timed.cleared (w := { w with started := false, active := false }) h.timed
        rw [clearTimer_eq] at htimed ⊢
        exact ⟨htimed, fun hactive => by cases hactive⟩
  | focus => exact h.timed.pollImmediately
  | visibility visible => exact Timed.visibility h.timed
  | disconnect => exact ⟨h.timed, fun _ honline => by cases honline⟩
  | connect => exact ⟨h.timed, fun _ _ => .inr (.inl rfl)⟩
  | onlineEvent => exact Timed.pollImmediately h.timed
  | fire timer htimer =>
      exact Timed.poll fun other hother => h.timed other (List.mem_of_mem_filter hother)
  | change => exact ⟨h.timed, h.awake⟩
  | answer => exact ⟨h.timed, h.awake⟩
  | resume token sent page hmem =>
      rw [FeedWorld.resume]
      split
      · exact ⟨h.timed, h.awake⟩
      · exact Timed.schedule h.timed
  | invalidationDone token sent page stores hmem =>
      have htimed : Timed { w with invalidated := page.changes :: w.invalidated } := h.timed
      rw [FeedWorld.invalidationDone]
      split
      · exact Timed.schedule htimed
      · exact Timed.schedule htimed
  | reject p failure removes hmem => exact Timed.schedule (h.timed.caught p.token removes failure)

/-! ### Runs -/

/-- What every turn keeps. -/
structure Kept (normalizeNFC : String → String) (w : FeedWorld) : Prop where
  tracked : Tracked normalizeNFC w
  due : Due w

theorem kept_create {stored : Option String} {removes online visible : Bool}
    {table : List MailboxChangeRow} (hfeeds : Feeds normalizeNFC table) :
    Kept normalizeNFC (.create stored removes online visible table) := by
  have hcovered : ∀ cursor, readCursor stored = some cursor →
      Covered (.create stored removes online visible table) cursor := by
    intro cursor hread
    obtain ⟨n, hn⟩ := readCursor_valid hread
    refine ⟨n, n, hn, ?_, le_rfl, .inl rfl, fun row _ hlt hle => absurd hle hlt.not_ge⟩
    rw [FeedWorld.create, hread, Option.bind_some, hn]
    rfl
  refine ⟨?_, nofun, fun hactive => by cases hactive⟩
  exact {
    feeds := hfeeds
    fresh := nofun
    nodup := List.nodup_nil
    live := nofun
    owned := fun _ hother => by cases hother
    sent := nofun
    answers := nofun
    covered := hcovered
    blank := fun hnone => by
      have hnone : readCursor stored = none := hnone
      rw [FeedWorld.create, hnone]
      rfl
    stored := fun cursor hread => by
      rw [FeedWorld.create] at hread
      split at hread
      · cases hread
      · exact hcovered cursor hread }

theorem FeedTurn.keeps (hturn : FeedTurn normalizeNFC w w') (h : Kept normalizeNFC w) :
    Kept normalizeNFC w' := by
  cases hturn with
  | start =>
      rw [FeedWorld.start]
      split
      · exact h
      · have hflags : Tracked normalizeNFC { w with started := true, active := true } :=
          h.tracked.aside rfl le_rfl (.inl rfl)
        exact ⟨moves_keep (moves_pollImmediately _) hflags, Timed.pollImmediately h.due.timed⟩
  | step _ hstep => exact ⟨moves_keep hstep.moves h.tracked, hstep.due h.due⟩

theorem FeedReachable.kept (h : FeedReachable normalizeNFC w) : Kept normalizeNFC w := by
  obtain ⟨stored, removes, online, visible, table, hfeeds, hrun⟩ := h
  induction hrun with
  | refl => exact kept_create hfeeds
  | tail _ hturn ih => exact hturn.keeps ih

/-- A controller that has followed one change. -/
theorem exists_followed : ∃ w, FeedReachable id w ∧ w.active = true ∧ w.online = true ∧
    w.cursor.isSome = true := by
  obtain ⟨cursor, hcursor⟩ := @encode_of_safe 0 rfl le_rfl
  have hcursor := decode_of_encode hcursor
  obtain ⟨page, hpage, -⟩ := exchange_after threeRows_feed hcursor (by decide)
  rw [← readCursor_written hcursor] at hpage
  let before := FeedWorld.create (some (writtenCursor cursor)) true true true threeRows
  let answered := before.start.setStage 0 (.answered page)
  have hanswer : FeedStep id before.start answered := .answer _ 0 _ page List.mem_cons_self hpage
  have hresume : FeedStep id answered (answered.resume 0 page) :=
    .resume _ 0 _ page List.mem_cons_self
  have hdone : FeedStep id (answered.resume 0 page)
      (answered.resume 0 page |>.invalidationDone 0 page true) :=
    .invalidationDone _ 0 _ page true List.mem_cons_self
  have hstart : FeedTurn id before before.start := .start before
  have hrun := (((Relation.ReflTransGen.single hstart).tail (.step _ _ hanswer)).tail
    (.step _ _ hresume)).tail (.step _ _ hdone)
  exact ⟨_, ⟨_, _, _, _, _, threeRows_feed, hrun⟩, rfl, rfl, rfl⟩

/-- The queries about the change of this row have been read again. -/
def Refreshed (w : FeedWorld) (row : MailboxChangeRow) : Prop :=
  ∃ change : MailboxChange, change.row = row ∧ ∃ changes ∈ w.invalidated, ∀ mailboxId key,
    invalidatesQuery mailboxId [change] key = true → invalidatesQuery mailboxId changes key = true

/-- Up to this cursor all changes have been looked after. -/
def UpTo (w : FeedWorld) (cursor : String) : Prop :=
  ∃ n baseline, decodeMailboxChangeCursor cursor = .ok n ∧ w.baseline = some baseline ∧
    baseline ≤ n ∧
    ∀ row ∈ w.table, baseline < row.sequence → row.sequence ≤ n → Refreshed w row

theorem Covered.upTo {cursor : String} (h : Covered w cursor) : UpTo w cursor := by
  obtain ⟨n, baseline, hn, hbaseline, hle, -, hall⟩ := h
  refine ⟨n, baseline, hn, hbaseline, hle, fun row hrow hlt hnle => ?_⟩
  obtain ⟨changes, hchanges, change, hchange, hsame⟩ := hall row hrow hlt hnle
  exact ⟨change, hsame, changes, hchanges, fun mailboxId key hkey =>
    invalidatesQuery_iff.mpr ⟨change, hchange, hkey⟩⟩

/-- **No change is passed over** by the cursor, nor by the one that is stored. -/
theorem nothing_skipped (h : FeedReachable normalizeNFC w) :
    (∀ cursor, w.cursor = some cursor → UpTo w cursor) ∧
      ∀ cursor, readCursor w.stored = some cursor → UpTo w cursor :=
  ⟨fun cursor hcursor => (h.kept.tracked.covered cursor hcursor).upTo,
    fun cursor hread => (h.kept.tracked.stored cursor hread).upTo⟩

theorem nothing_skipped_followed : ∃ w : FeedWorld, w.cursor.isSome = true ∧
    (∀ cursor, w.cursor = some cursor → UpTo w cursor) ∧
      ∀ cursor, readCursor w.stored = some cursor → UpTo w cursor := by
  obtain ⟨w, hreachable, -, -, hcursor⟩ := exists_followed
  exact ⟨w, hcursor, nothing_skipped hreachable⟩

/-- **There is a next request**, and one at a time that is not aborted. -/
theorem never_asleep (h : FeedReachable normalizeNFC w) :
    (w.active = true → w.online = true → (∃ p ∈ w.polls, w.controller = some p.token) ∨
      w.announced = true ∨ ∃ timer ∈ w.timers, w.timer = some timer.1) ∧
    ∀ p ∈ w.polls, ∀ p' ∈ w.polls, p.token ∉ w.aborted → p'.token ∉ w.aborted → p = p' := by
  obtain ⟨htracked, htimed, hawake⟩ := h.kept
  constructor
  · intro hactive honline
    rcases hawake hactive honline with hcontroller | hannounced | htimers
    · obtain ⟨token, htoken⟩ := Option.isSome_iff_exists.mp hcontroller
      obtain ⟨p, hp, rfl⟩ := htracked.owned token htoken
      exact .inl ⟨p, hp, htoken⟩
    · exact .inr (.inl hannounced)
    · obtain ⟨timer, htimer⟩ := List.exists_mem_of_ne_nil _ htimers
      exact .inr (.inr ⟨timer, htimer, htimed timer htimer⟩)
  · intro p hp p' hp' hlive hlive'
    have hsome := (htracked.live p hp).resolve_right hlive
    have hsome' := (htracked.live p' hp').resolve_right hlive'
    exact List.inj_on_of_nodup_map htracked.nodup hp hp' (Option.some.inj (hsome.symm.trans hsome'))

theorem never_asleep_followed : ∃ w : FeedWorld, w.active = true ∧ w.online = true ∧
    ((∃ p ∈ w.polls, w.controller = some p.token) ∨
      w.announced = true ∨ ∃ timer ∈ w.timers, w.timer = some timer.1) := by
  obtain ⟨w, hreachable, hactive, honline, -⟩ := exists_followed
  exact ⟨w, hactive, honline, (never_asleep hreachable).1 hactive honline⟩

/-! ### A controller that is stopped -/

/-- Nothing has begun: no request is sent, no query is read again and no cursor is stored. -/
structure Quiet (w w' : FeedWorld) : Prop where
  active : w'.active = false
  cursor : w'.cursor = w.cursor
  stored : w'.stored = w.stored ∨ w'.stored = none
  requests : ∀ p' ∈ w'.polls, ∃ p ∈ w.polls, p.token = p'.token
  invalidations : ∀ p' ∈ w'.polls, ∀ page, p'.stage = .invalidating page → p' ∈ w.polls

theorem Quiet.refl (h : w.active = false) : Quiet w w :=
  ⟨h, rfl, .inl rfl, fun p hp => ⟨p, hp, rfl⟩, fun _ hp _ _ => hp⟩

theorem Quiet.trans {w'' : FeedWorld} (h : Quiet w w') (h' : Quiet w' w'') : Quiet w w'' where
  active := h'.active
  cursor := h'.cursor.trans h.cursor
  stored := by
    rcases h'.stored with hsame | hnone
    · exact h.stored.imp hsame.trans hsame.trans
    · exact .inr hnone
  requests p'' hp'' := by
    obtain ⟨p', hp', htoken'⟩ := h'.requests p'' hp''
    obtain ⟨p, hp, htoken⟩ := h.requests p' hp'
    exact ⟨p, hp, htoken.trans htoken'⟩
  invalidations p hp page hpage :=
    h.invalidations p (h'.invalidations p hp page hpage) page hpage

theorem Quiet.congr (h : w.active = false) (hactive : w'.active = w.active)
    (hcursor : w'.cursor = w.cursor) (hstored : w'.stored = w.stored ∨ w'.stored = none)
    (hpolls : w'.polls.Sublist w.polls) : Quiet w w' :=
  ⟨hactive.trans h, hcursor, hstored, fun p hp => ⟨p, hpolls.subset hp, rfl⟩,
    fun _ hp _ _ => hpolls.subset hp⟩

theorem FeedMove.quiet (hmove : FeedMove normalizeNFC w w') (h : w.active = false) :
    Quiet w w' := by
  have hidle : w.active ≠ true := by rw [h]; exact Bool.false_ne_true
  have hstage : ∀ token page, Quiet w (w.setStage token (.answered page)) := by
    refine fun token page => ⟨h, rfl, .inl rfl, fun p' hp' => ?_, fun p' hp' other hother => ?_⟩
    · obtain ⟨p, hp, rfl⟩ := List.mem_map.mp hp'
      refine ⟨p, hp, ?_⟩
      split <;> rfl
    · obtain ⟨p, hp, rfl⟩ := List.mem_map.mp hp'
      split at hother
      · cases hother
      · rename_i hne
        rw [if_neg hne]
        exact hp
  cases hmove with
  | aside _ hrecord _ hactive hstored =>
      simp only [FeedWorld.record, Prod.mk.injEq] at hrecord
      have hsame : w'.active = false := Bool.eq_false_iff.mpr fun hactive' =>
        hidle (hactive hactive')
      exact .congr h (hsame.trans h.symm) hrecord.2.2.2.2.1 hstored
        (hrecord.2.1 ▸ List.Sublist.refl _)
  | request hactive => exact absurd hactive hidle
  | answer token sent page => exact hstage token page
  | invalidate token sent page hmem hactive => exact absurd hactive hidle
  | finish => exact .congr h rfl rfl (.inl rfl) List.filter_sublist
  | accept token sent page stores hmem hactive => exact absurd hactive hidle
  | _ => exact .congr h rfl rfl (.inl rfl) (List.Sublist.refl _)

theorem moves_quiet (hmoves : FeedMoves normalizeNFC w w') (h : w.active = false) :
    Quiet w w' := by
  induction hmoves with
  | refl => exact .refl h
  | tail _ hmove ih => exact ih.trans (hmove.quiet ih.active)

/-- **A controller that is stopped does nothing**, until it is started again. -/
theorem stopped_is_quiet (hstarted : w.started = true)
    (hrun : Relation.ReflTransGen (FeedStep normalizeNFC) w.stop w') : Quiet w.stop w' := by
  have hinactive : w.stop.active = false := by
    rw [FeedWorld.stop, hstarted, clearTimer_eq]
    rfl
  induction hrun with
  | refl => exact .refl hinactive
  | tail _ hstep ih => exact ih.trans (moves_quiet hstep.moves ih.active)

/-- An invalidation that is complete too late. -/
theorem stopped_is_quiet_late : ∃ w w' : FeedWorld, w'.invalidated ≠ w.stop.invalidated ∧
    Quiet w.stop w' := by
  let p : Poll := ⟨0, none, .invalidating ⟨[messageChange 1], ""⟩⟩
  let w : FeedWorld := { FeedWorld.create none true true true [] with
    started := true, active := true, controller := some 0, polls := [p], nextId := 1 }
  have hstep : FeedStep id w.stop (w.stop.invalidationDone 0 ⟨[messageChange 1], ""⟩ true) :=
    .invalidationDone w.stop 0 none _ true List.mem_cons_self
  refine ⟨w, _, ?_, stopped_is_quiet rfl (.single hstep)⟩
  exact fun h => by cases h

end MailPortal.Feed
