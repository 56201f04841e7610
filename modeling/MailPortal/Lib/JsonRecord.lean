import MailPortal.Lib.Json

/-!
# Records in JSON Values

A record is written as an object with a member for each field, and read back by looking the fields
up and testing their types. The lemmas say that the members of such an object are plain data, so
that its text reads back as it was.
-/

namespace Json

/-! ### Reading -/

/-- A member of an object. -/
def get? (v : Json) (key : String) : Option Json :=
  match v with
  | .obj members => (members.find? fun m => m.1 = key).map Prod.snd
  | _ => none

/-- The value is an object, with these keys and no others. -/
def hasExactKeys (v : Json) (expected : List String) : Bool :=
  match v with
  | .obj members =>
      decide (members.length = expected.length) && members.all fun m => decide (m.1 ∈ expected)
  | _ => false

/-- The value as a string. -/
def asString : Json → Option String
  | .str s => some s
  | _ => none

/-- The value as an array. -/
def asItems : Json → Option (List Json)
  | .arr items => some items
  | _ => none

/-- The largest integer below which all integers are doubles of their own. -/
def maxSafeInteger : ℕ := 2 ^ 53 - 1

/-- An integer of which the neighbours are told apart. -/
def isSafe (n : ℤ) : Bool := decide (n.natAbs ≤ maxSafeInteger)

/-- The value as such an integer. -/
def asSafeInteger : Json → Option ℤ
  | .num (some q) => if q.den = 1 ∧ isSafe q.num = true then some q.num else none
  | _ => none

/-- The value is null. -/
def isNull : Json → Bool
  | .null => true
  | _ => false

/-- A string or null. -/
def asNullableString : Json → Option (Option String)
  | .null => some none
  | .str s => some (some s)
  | _ => none

/-- A member that is a string. -/
def stringAt (v : Json) (key : String) : Option String := (v.get? key).bind asString

/-- A member that is an integer. -/
def integerAt (v : Json) (key : String) : Option ℤ := (v.get? key).bind asSafeInteger

/-- A member that is an array. -/
def itemsAt (v : Json) (key : String) : Option (List Json) := (v.get? key).bind asItems

/-- A member that is a string or null. -/
def nullableStringAt (v : Json) (key : String) : Option (Option String) :=
  (v.get? key).bind asNullableString

/-! ### Writing -/

/-- An integer as a value. -/
def ofInt (n : ℤ) : Json := .num (some n)

/-- A string or null as a value. -/
def ofNullable : Option String → Json
  | none => .null
  | some s => .str s

@[simp] theorem asString_str (s : String) : asString (.str s) = some s := rfl

@[simp] theorem asItems_arr (items : List Json) : asItems (.arr items) = some items := rfl

/-- Integers are read back. -/
theorem asSafeInteger_ofInt {n : ℤ} (h : isSafe n = true) : asSafeInteger (ofInt n) = some n := by
  rw [ofInt, asSafeInteger, if_pos ⟨Rat.den_intCast n, by rwa [Rat.num_intCast]⟩,
    Rat.num_intCast]

/-- Strings and nulls are read back. -/
@[simp] theorem asNullableString_ofNullable (s : Option String) :
    asNullableString (ofNullable s) = some s := by
  cases s <;> rfl

/-- Strings are plain data. -/
theorem plain_str (s : String) : (Json.str s).Plain := trivial

/-- Safe integers are plain data. -/
theorem plain_ofInt {n : ℤ} (h : isSafe n = true) : (ofInt n).Plain := by
  rw [isSafe, decide_eq_true_eq, maxSafeInteger] at h
  refine ⟨rfl, fun q hq => ?_⟩
  cases hq
  refine Double.isDouble_intCast ?_
  rw [Int.abs_eq_natAbs]
  omega

/-- Strings and nulls are plain data. -/
theorem plain_ofNullable (s : Option String) : (ofNullable s).Plain := by
  cases s <;> exact trivial

/-- An array of plain data is plain. -/
theorem plain_arr {items : List Json} (h : ∀ v ∈ items, v.Plain) : (Json.arr items).Plain :=
  overItems_iff.mpr h

/-- An object of plain data is plain when its keys are distinct. -/
theorem plain_obj {members : List (String × Json)} (hkeys : (members.map Prod.fst).Nodup)
    (h : ∀ m ∈ members, m.2.Plain) : (Json.obj members).Plain :=
  ⟨hkeys, overMembers_iff.mpr h⟩

end Json
