import MailPortal.Feed.Paging

/-!
# The Controller of the Change Feed

The client asks for the page behind its cursor, has the queries about the changes of the page read
again, and only then takes the cursor of the page. It asks when the mailbox is opened, when the
window gets the focus or the browser is online again, and some time after the last answer.

A request is under way for any time, and meanwhile the controller may be stopped and started again.
A request that is superseded is known by its token.

Main definitions:

* `invalidatesQuery` : which queries are read again.
* `FeedStep` : what happens to a controller.
-/

namespace MailPortal.Feed

open Failure

/-! ### The queries about a change -/

inductive InvalidatedQueryRoot where
  | attachments | automations | conversationActivity | emails | folders | labels | outbound
  | people | recipientSuggestions | savedViewResults | search
deriving DecidableEq

def InvalidatedQueryRoot.text : InvalidatedQueryRoot → String
  | .attachments => "attachments"
  | .automations => "automations"
  | .conversationActivity => "conversation-activity"
  | .emails => "emails"
  | .folders => "folders"
  | .labels => "labels"
  | .outbound => "outbound"
  | .people => "people"
  | .recipientSuggestions => "recipient-suggestions"
  | .savedViewResults => "saved-view-results"
  | .search => "search"

def INVALIDATED_ROOTS_BY_RESOURCE : MailboxChangeResource → List InvalidatedQueryRoot
  | .message => [.attachments, .conversationActivity, .emails, .folders, .people,
      .recipientSuggestions, .savedViewResults, .search]
  | .attachment => [.attachments, .conversationActivity, .emails, .people, .savedViewResults,
      .search]
  | .folder => [.attachments, .emails, .folders, .savedViewResults, .search]
  | .label => [.emails, .labels, .savedViewResults, .search]
  | .messageLabel => [.conversationActivity, .emails, .savedViewResults, .search]
  | .delivery => [.conversationActivity, .emails, .outbound]
  | .deliveryAttempt => [.conversationActivity, .emails, .outbound]
  | .automationRule => [.automations]
  | .automationRun => [.automations]

/-- `query.queryKey`; an entry that is not a text is `none`. -/
structure QueryKey where
  root : Option String
  scopedMailboxId : Option String
  projection : Option String
deriving DecidableEq

/-- The predicate of `invalidateMailboxChangeQueries`. -/
def invalidatesQuery (mailboxId : String) (changes : List MailboxChange) (key : QueryKey) : Bool :=
  let roots := changes.flatMap fun change => INVALIDATED_ROOTS_BY_RESOURCE change.resource
  let messagePeopleChanged := changes.any fun change => change.resource = .message
  let attachmentPeopleChanged := changes.any fun change => change.resource = .attachment
  if key.root = some "people" && key.scopedMailboxId = some mailboxId then
    messagePeopleChanged || (attachmentPeopleChanged &&
      (key.projection = some "detail" || key.projection = some "timeline"))
  else
    roots.any (fun root => key.root = some root.text) && key.scopedMailboxId = some mailboxId &&
      !(key.root = some "attachments" && key.projection = some "bytes")

/-! ### The stored cursor -/

/-- What `writeCursor` stores. -/
def writtenCursor (cursor : String) : String :=
  Json.stringify (.obj [("version", .ofInt 1), ("cursor", .str cursor)])

def readCursor (stored : Option String) : Option String := do
  let parsed ← stored.bind Json.parse
  let keys ← objectKeys parsed
  let cursor ← parsed.stringAt "cursor"
  if joinKeys keys = "version,cursor" && parsed.integerAt "version" = some 1 &&
      (decodeMailboxChangeCursor cursor).isOk then some cursor
  else none

/-! ### The controller -/

def MAILBOX_CHANGE_VISIBLE_POLL_MS : ℕ := 5000

def MAILBOX_CHANGE_HIDDEN_POLL_MS : ℕ := 30000

def MAILBOX_CHANGE_VISIBLE_MAX_BACKOFF_MS : ℕ := 60000

def MAILBOX_CHANGE_HIDDEN_MAX_BACKOFF_MS : ℕ := 300000

/-- What a `poll` waits for. -/
inductive PollStage where
  | requesting
  /-- The page is there, and the `poll` has not gone on yet. -/
  | answered (page : MailboxChangePage)
  | invalidating (page : MailboxChangePage)
deriving DecidableEq

/-- A `poll` that is under way, with its `AbortController` and the cursor that it sent. -/
structure Poll where
  token : ℕ
  sent : Option String
  stage : PollStage
deriving DecidableEq

/-- The error of a request. -/
inductive RequestFailure where
  | unauthorized | forbidden | other
deriving DecidableEq

/-- The variables of a controller, the browser and the server. The changes for which the
invalidation is complete, and the number from which on they are, are only spoken of. -/
structure FeedWorld where
  started : Bool
  active : Bool
  timer : Option ℕ
  controller : Option ℕ
  cursor : Option String
  consecutiveFailures : ℕ
  online : Bool
  /-- An `online` event is due. -/
  announced : Bool
  visible : Bool
  timers : List (ℕ × ℕ)
  nextId : ℕ
  stored : Option String
  polls : List Poll
  aborted : List ℕ
  table : List MailboxChangeRow
  invalidated : List (List MailboxChange)
  baseline : Option ℤ

namespace FeedWorld

/-- A controller is created; a stored text that is not a cursor is removed, if that can be done. -/
def create (stored : Option String) (removes online visible : Bool)
    (table : List MailboxChangeRow) : FeedWorld where
  started := false
  active := false
  timer := none
  controller := none
  cursor := readCursor stored
  consecutiveFailures := 0
  online := online
  announced := false
  visible := visible
  timers := []
  nextId := 0
  stored := if (readCursor stored).isNone && removes then none else stored
  polls := []
  aborted := []
  table := table
  invalidated := []
  baseline := (readCursor stored).bind fun cursor => (decodeMailboxChangeCursor cursor).toOption

variable (w : FeedWorld)

def clearTimer : FeedWorld :=
  match w.timer with
  | none => w
  | some id => { w with timers := w.timers.filter fun timer => timer.1 ≠ id, timer := none }

/-- How long the next request waits. -/
def delay : ℕ :=
  let baseDelay := if w.visible then MAILBOX_CHANGE_VISIBLE_POLL_MS
    else MAILBOX_CHANGE_HIDDEN_POLL_MS
  let maximumDelay := if w.visible then MAILBOX_CHANGE_VISIBLE_MAX_BACKOFF_MS
    else MAILBOX_CHANGE_HIDDEN_MAX_BACKOFF_MS
  min (baseDelay * 2 ^ w.consecutiveFailures) maximumDelay

def schedule : FeedWorld :=
  if !w.active || !w.online then w
  else
    let w := w.clearTimer
    { w with timer := some w.nextId, timers := (w.nextId, w.delay) :: w.timers,
             nextId := w.nextId + 1 }

/-- `poll`, as far as the request. -/
def poll : FeedWorld :=
  if !w.active || !w.online || w.controller.isSome then w
  else
    let w := w.clearTimer
    { w with controller := some w.nextId, polls := ⟨w.nextId, w.cursor, .requesting⟩ :: w.polls,
             nextId := w.nextId + 1 }

def pollImmediately : FeedWorld :=
  if !w.active || !w.online then w else w.clearTimer.poll

def handleVisibilityChange : FeedWorld :=
  if !w.active || !w.online then w
  else if w.visible then w.pollImmediately else w.schedule

def start : FeedWorld :=
  if w.started then w else { w with started := true, active := true }.pollImmediately

def stop : FeedWorld :=
  if !w.started then w
  else
    let w := { w with started := false, active := false }.clearTimer
    { w with aborted := w.controller.toList ++ w.aborted, controller := none }

/-- What a `poll` waits for, changed. -/
def setStage (token : ℕ) (stage : PollStage) : FeedWorld :=
  { w with polls := w.polls.map fun p => if p.token = token then { p with stage } else p }

/-- `finally` -/
def settle (token : ℕ) : FeedWorld :=
  { w with polls := w.polls.filter fun p => p.token ≠ token,
           controller := if w.controller = some token then none else w.controller }.schedule

/-- `catch`; the stored cursor may not be removed. -/
def caught (token : ℕ) (removes : Bool) : RequestFailure → FeedWorld
  | .unauthorized => { w with active := false }.clearTimer
  | .forbidden =>
    let w := { w with active := false }.clearTimer
    { w with stored := if removes then none else w.stored }
  | .other =>
    if w.active && token ∉ w.aborted then
      { w with consecutiveFailures := w.consecutiveFailures + 1 }
    else w

/-- The `poll` is still the one. -/
def isCurrent (token : ℕ) : Bool := w.active && w.controller = some token

/-- The page is there. -/
def resume (token : ℕ) (page : MailboxChangePage) : FeedWorld :=
  if w.isCurrent token then w.setStage token (.invalidating page) else w.settle token

/-- The cursor of a page is taken; it may not be stored. -/
def accept (page : MailboxChangePage) (stores : Bool) : FeedWorld :=
  { w with
    cursor := some page.nextCursor
    stored := if stores then some (writtenCursor page.nextCursor) else w.stored
    consecutiveFailures := 0
    baseline := w.baseline <|> (decodeMailboxChangeCursor page.nextCursor).toOption }

/-- The queries about the changes have been read again. -/
def invalidationDone (token : ℕ) (page : MailboxChangePage) (stores : Bool) : FeedWorld :=
  let w := { w with invalidated := page.changes :: w.invalidated }
  if w.isCurrent token then (w.accept page stores).settle token else w.settle token

end FeedWorld

/-- What happens to a controller, but that it is started. -/
inductive FeedStep (normalizeNFC : String → String) : FeedWorld → FeedWorld → Prop
  | stop (w) : FeedStep normalizeNFC w w.stop
  | focus (w) : FeedStep normalizeNFC w w.pollImmediately
  | visibility (w) (visible : Bool) :
      FeedStep normalizeNFC w { w with visible }.handleVisibilityChange
  | disconnect (w) : FeedStep normalizeNFC w { w with online := false }
  | connect (w) : FeedStep normalizeNFC w { w with online := true, announced := true }
  | onlineEvent (w) (h : w.announced = true) :
      FeedStep normalizeNFC w { w with announced := false }.pollImmediately
  | fire (w) (timer : ℕ × ℕ) (h : timer ∈ w.timers) :
      FeedStep normalizeNFC w
        { w with timers := w.timers.filter fun other => other.1 ≠ timer.1 }.poll
  /-- The mailbox changes. -/
  | change (w) (rows : List MailboxChangeRow) (h : Feeds normalizeNFC (w.table ++ rows)) :
      FeedStep normalizeNFC w { w with table := w.table ++ rows }
  | answer (w) (token : ℕ) (sent : Option String) (page : MailboxChangePage)
      (h : ⟨token, sent, .requesting⟩ ∈ w.polls)
      (hpage : exchange normalizeNFC w.table sent = .ok page) :
      FeedStep normalizeNFC w (w.setStage token (.answered page))
  | resume (w) (token : ℕ) (sent : Option String) (page : MailboxChangePage)
      (h : ⟨token, sent, .answered page⟩ ∈ w.polls) : FeedStep normalizeNFC w (w.resume token page)
  | invalidationDone (w) (token : ℕ) (sent : Option String) (page : MailboxChangePage)
      (stores : Bool) (h : ⟨token, sent, .invalidating page⟩ ∈ w.polls) :
      FeedStep normalizeNFC w (w.invalidationDone token page stores)
  /-- The request, or the invalidation, fails. -/
  | reject (w) (p : Poll) (failure : RequestFailure) (removes : Bool) (h : p ∈ w.polls) :
      FeedStep normalizeNFC w ((w.caught p.token removes failure).settle p.token)

/-- A controller may also be started. -/
inductive FeedTurn (normalizeNFC : String → String) : FeedWorld → FeedWorld → Prop
  | start (w) : FeedTurn normalizeNFC w w.start
  | step (w w') (h : FeedStep normalizeNFC w w') : FeedTurn normalizeNFC w w'

/-- What becomes of a controller that is created. -/
def FeedReachable (normalizeNFC : String → String) (w : FeedWorld) : Prop :=
  ∃ stored removes online visible table, Feeds normalizeNFC table ∧
    Relation.ReflTransGen (FeedTurn normalizeNFC)
      (FeedWorld.create stored removes online visible table) w

end MailPortal.Feed
