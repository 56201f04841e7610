import MailPortal.Derived.CleanupIntent
import MailPortal.Lib.Fallible
import MailPortal.Platform.R2

/-!
# The Ledger of Derived Objects

The operations of the programs that keep account of derived objects: on the bucket that holds the
records, on the bucket that holds the objects, on the mailbox, and on the clock. Any of them may
throw. The mailbox, the listings and the clock may answer anything. The state keeps what has been
written, listed, requested and answered to callers.
-/

namespace MailPortal.Derived

open Concurrent

variable {host : HostRuntime}

/-- A page of a listing. -/
structure Page (α : Type) where
  objects : List α
  truncated : Bool
  cursor : Option String

/-- The outcome of `finalizeInboundDerivedContentRepairAttempt`. -/
inductive RepairTerminal
  | committed
  | abandoned
  | rejected
  | other
  deriving DecidableEq

/-- What `enqueueUnownedInboundDerivedContentCleanup` answers. -/
structure CleanupCounts where
  queued : JsNumber
  retained : JsNumber
  absent : JsNumber
deriving DecidableEq

/-- What a caller has been told. -/
inductive LedgerNote
  /-- The resolution of an attempt is durable. -/
  | resolved (attempt : RepairAttempt) (resolution : RepairResolution)
  /-- The intent under a key has a status. -/
  | settled (key : String) (status : IntentStatus)
  deriving DecidableEq

/-- What the programs ask for. -/
inductive LedgerOp
  | get (key : String)
  | put (key value : String) (condition : R2Condition)
  | delete (key : String)
  | list (start : String) (cursor : Option String)
  /-- A listing of the bucket of the derived objects. -/
  | listObjects (start : String) (cursor : Option String)
  | finalize (attempt : RepairAttempt)
  | enqueue (mailboxId : String) (request : CleanupProofRequest)
  /-- `getInboundDerivedContentManifest` -/
  | manifest (mailboxId emailId : String)
  | now
  /-- The references of a log entry are computed. -/
  | logRefs
  /-- Nothing is done. A caller has been told something. -/
  | note (told : LedgerNote)

abbrev LedgerOp.Value : LedgerOp → Type
  | .get _ => R2Answer
  | .put .. => Bool
  | .delete _ => Unit
  | .list .. => Page String
  | .listObjects .. => Page DerivedObject
  | .finalize _ => RepairTerminal
  | .enqueue .. => CleanupCounts
  | .manifest .. => Json
  | .now => ℤ
  | .logRefs => Unit
  | .note _ => Unit

/-- The answer to a listing of the derived objects. -/
structure Listing where
  start : String
  cursor : Option String
  page : Option (Page DerivedObject)

/-- The texts of the bucket; and, the last first, the texts that have been written, the listings of
derived objects, the requests for a clean-up with what was answered, and what callers know. -/
structure LedgerWorld where
  bucket : Bucket
  written : List (String × String)
  listed : List Listing
  requests : List (CleanupProofRequest × Option CleanupCounts)
  noted : List LedgerNote

def LedgerWorld.write (w : LedgerWorld) (key value : String) : LedgerWorld :=
  { w with bucket := w.bucket.set key (some value), written := (key, value) :: w.written }

@[simp] theorem LedgerWorld.write_self (w : LedgerWorld) (key value : String) :
    (w.write key value).bucket key = some value := Bucket.set_self ..

theorem LedgerWorld.write_of_ne {key other : String} (h : other ≠ key) (w : LedgerWorld)
    (value : String) : (w.write key value).bucket other = w.bucket other :=
  Bucket.set_of_ne h w.bucket (some value)

/-- What an operation may answer and do. -/
def LedgerOp.Exec : (op : LedgerOp) → LedgerWorld → Option op.Value → LedgerWorld → Prop
  | .get key, w, answer, w' => w.bucket.Gets key answer ∧ w' = w
  | .put key value condition, w, answer, w' =>
      ∃ done, w.bucket.Puts key condition answer done ∧ w' = if done then w.write key value else w
  | .delete key, w, answer, w' =>
      ∃ bucket, w.bucket.Deletes key answer bucket ∧ w' = { w with bucket := bucket }
  | .enqueue _ request, w, answer, w' =>
      w' = { w with requests := (request, answer) :: w.requests }
  | .listObjects start cursor, w, answer, w' =>
      w' = { w with listed := ⟨start, cursor, answer⟩ :: w.listed }
  | .list .., w, _, w' => w' = w
  | .finalize _, w, _, w' => w' = w
  | .manifest .., w, _, w' => w' = w
  | .now, w, _, w' => w' = w
  | .logRefs, w, _, w' => w' = w
  | .note told, w, _, w' => w' = { w with noted := told :: w.noted }

section Exec

variable {w w' : LedgerWorld} {key value : String} {condition : R2Condition}

/-- A put writes under its condition, or does nothing. -/
theorem exec_put {answer : Option Bool}
    (h : LedgerOp.Exec (.put key value condition) w answer w') :
    w' = w ∨ condition.Holds (w.bucket key) ∧ w' = w.write key value := by
  obtain ⟨done, hput, rfl⟩ := h
  cases done with
  | false => exact .inl rfl
  | true => exact .inr ⟨hput.holds, rfl⟩

/-- A put that answers that it is written has written. -/
theorem exec_put_written (h : LedgerOp.Exec (.put key value condition) w (some true) w') :
    w' = w.write key value := by
  obtain ⟨done, hput, rfl⟩ := h
  obtain rfl := hput.of_written
  rfl

theorem exec_delete {answer : Option Unit} (h : LedgerOp.Exec (.delete key) w answer w') :
    w' = w ∨ w' = { w with bucket := w.bucket.set key none } := by
  obtain ⟨bucket, hdelete, rfl⟩ := h
  rcases hdelete.cases_eq with rfl | rfl
  · exact .inl rfl
  · exact .inr rfl

end Exec

/-- Nothing has happened. -/
def emptyLedger : LedgerWorld := ⟨fun _ => none, [], [], [], []⟩

/-- A host that reads the dates that `toISOString` writes. -/
def sampleHost : HostRuntime where
  dateParse := isoTimeValue
  localeCompare := compare

/-- A program that does not throw. -/
abbrev LedgerProg (α : Type) : Type := Fallible LedgerOp LedgerOp.Value α

/-- A program that may throw. -/
abbrev Throwing (α : Type) : Type := Throws LedgerOp LedgerOp.Value α

/-- Call an operation. -/
abbrev call (op : LedgerOp) : Throwing op.Value := perform op

/-- What a stored text says; `null` when it is not JSON, or cannot be read. -/
structure StoredJson where
  etag : String
  value : Json

def jsonOf (text : String) (readable : Bool) : Json :=
  if readable then (Json.parse text).getD .null else .null

def readJson (key : String) : Throwing (Option StoredJson) := do
  match ← call (.get key) with
  | .absent => return none
  | .found text readable => return some ⟨text, jsonOf text readable⟩

/-- The text of a plain value reads back as it was. -/
theorem jsonOf_stringify {v : Json} (h : v.Plain) : jsonOf (Json.stringify v) true = v := by
  rw [jsonOf, if_pos rfl, Json.parse_stringify h, Option.getD_some]

/-- What cannot be read is no resolution, and no attempt. -/
theorem readResolution_jsonOf_false (text : String) :
    readResolution host (jsonOf text false) = none := rfl

theorem readAttempt_jsonOf_false (text : String) :
    readAttempt host (jsonOf text false) = none := rfl

end MailPortal.Derived
