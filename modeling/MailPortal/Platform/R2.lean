import Mathlib.Logic.Function.Basic

/-!
# The Object Store

An R2 bucket holds texts under keys. Reads see the last write. A write may be conditional on the
etag of what is stored; an etag is a digest of the text, and stands for it here. Any call may
fail, and a write or a deletion that fails may have been done all the same.

A conditional write may also be refused for no reason that the text shows, as when the object was
replaced by one with the same text.
-/

namespace MailPortal

/-- The texts of a bucket. -/
abbrev Bucket := String → Option String

/-- `onlyIf`. -/
inductive R2Condition
  /-- `etagDoesNotMatch: "*"`. -/
  | absent
  /-- `etagMatches`, with the text of the etag. -/
  | unchanged (text : String)
  deriving DecidableEq

/-- The condition holds of what is stored. -/
def R2Condition.Holds : R2Condition → Option String → Prop
  | .absent, stored => stored = none
  | .unchanged text, stored => stored = some text

instance (condition : R2Condition) (stored : Option String) :
    Decidable (condition.Holds stored) := by
  cases condition <;> (rw [R2Condition.Holds]; infer_instance)

/-- What `get` answers. The text of an object that is found, which stands for its etag, may still
not be readable. -/
inductive R2Answer
  | absent
  | found (text : String) (readable : Bool)
  deriving DecidableEq

namespace Bucket

variable {bucket bucket' : Bucket} {key : String} {condition : R2Condition}

def set (bucket : Bucket) (key : String) (stored : Option String) : Bucket :=
  Function.update bucket key stored

@[simp] theorem set_self (bucket : Bucket) (key : String) (stored : Option String) :
    bucket.set key stored key = stored := Function.update_self ..

theorem set_of_ne {other : String} (h : other ≠ key) (bucket : Bucket) (stored : Option String) :
    bucket.set key stored other = bucket other := Function.update_of_ne h ..

/-- What `get` may answer, `none` when it throws. -/
inductive Gets (bucket : Bucket) (key : String) : Option R2Answer → Prop
  | absent (h : bucket key = none) : Gets bucket key (some .absent)
  | found (text : String) (readable : Bool) (h : bucket key = some text) :
      Gets bucket key (some (.found text readable))
  | failed : Gets bucket key none

/-- What a conditional `put` may answer, `none` when it throws, and whether it is done. -/
inductive Puts (bucket : Bucket) (key : String) (condition : R2Condition) :
    Option Bool → Bool → Prop
  | written (h : condition.Holds (bucket key)) : Puts bucket key condition (some true) true
  | refused : Puts bucket key condition (some false) false
  | failed : Puts bucket key condition none false
  | ambiguous (h : condition.Holds (bucket key)) : Puts bucket key condition none true

/-- What `delete` may answer and do, `none` when it throws. -/
inductive Deletes (bucket : Bucket) (key : String) : Option Unit → Bucket → Prop
  | deleted : Deletes bucket key (some ()) (bucket.set key none)
  | failed : Deletes bucket key none bucket
  | ambiguous : Deletes bucket key none (bucket.set key none)

theorem Gets.of_found {text : String} {readable : Bool}
    (h : Gets bucket key (some (.found text readable))) : bucket key = some text := by
  cases h with
  | found _ _ h => exact h

/-- A put is done under its condition. -/
theorem Puts.holds {answer : Option Bool} (h : Puts bucket key condition answer true) :
    condition.Holds (bucket key) := by
  cases h with
  | written h => exact h
  | ambiguous h => exact h

/-- A put that answers that it is written is done. -/
theorem Puts.of_written {done : Bool} (h : Puts bucket key condition (some true) done) :
    done = true := by
  cases h with
  | written h => rfl

theorem Deletes.cases_eq {answer : Option Unit} (h : Deletes bucket key answer bucket') :
    bucket' = bucket ∨ bucket' = bucket.set key none := by
  cases h with
  | deleted => exact .inr rfl
  | failed => exact .inl rfl
  | ambiguous => exact .inr rfl

end Bucket

end MailPortal
