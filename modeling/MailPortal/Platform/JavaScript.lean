import Mathlib.Algebra.Group.Nat.Defs
import Mathlib.Data.List.Lex
import Mathlib.Data.List.TakeWhile
import Mathlib.Data.Rat.Defs

/-!
# The JavaScript Platform

The workers run on JavaScript's own strings, numbers and dates. This module fixes the
part of the language the modelled code relies on:

* `JsNumber`: a number is a rational or one of the values that are not finite. Every
  double is a rational, so integers, fractions and `NaN` stay apart; the rounding of
  arithmetic on doubles is not modelled.
* `jsLt` / `jsLe`: the relational operators on strings compare UTF-16 code units.
* `isBlank`: a string that `trim()` leaves empty.
* `toISOString`: the extended ISO 8601 text of a time value, and
  `isCanonicalUtcTimestamp`, the code's test that a string is exactly such a text.

`Date.parse` is specified by the language only on the ISO format; elsewhere its value is
the host's choice, so functions that call it take the host as a parameter
(`HostRuntime`).
-/

namespace MailPortal

variable {a b : String}

/-! ### Numbers -/

/-- A JavaScript number: `none` stands for `NaN` and the two infinities. -/
abbrev JsNumber := Option ℚ

namespace JsNumber

/-- `Number.isInteger`. -/
def isInteger : JsNumber → Bool
  | some q => q.den = 1
  | none => false

/-- The `<` operator; every comparison with `NaN` is false. The infinities never reach a
comparison in the modelled code, which tests for numbers first. -/
def lt : JsNumber → JsNumber → Bool
  | some a, some b => a < b
  | _, _ => false

/-- An integer literal. -/
def ofInt (n : ℤ) : JsNumber := some n

/-- `Number.MAX_SAFE_INTEGER`. -/
def maxSafeInteger : ℕ := 2 ^ 53 - 1

/-- The integer that `Number.isSafeInteger` finds. -/
def safeInteger : JsNumber → Option ℤ
  | some q => if q.den = 1 && q.num.natAbs ≤ maxSafeInteger then some q.num else none
  | none => none

end JsNumber

/-! ### Strings -/

/-- The UTF-16 code units of a character: one unit in the basic plane, a surrogate pair
above it. -/
def utf16Units (c : Char) : List ℕ :=
  if c.toNat < 0x10000 then [c.toNat]
  else [0xD800 + (c.toNat - 0x10000) / 0x400, 0xDC00 + (c.toNat - 0x10000) % 0x400]

/-- The `length` of a string. -/
def codeUnits (s : String) : ℕ := (s.toList.flatMap utf16Units).length

/-- The characters of `slice(0, n)`; half of a surrogate pair is stored as U+FFFD. -/
def sliceUnits : ℕ → List Char → List Char
  | _, [] => []
  | n, c :: cs =>
      if n = 0 then []
      else if (utf16Units c).length ≤ n then c :: sliceUnits (n - (utf16Units c).length) cs
      else [Char.ofNat 0xFFFD]

/-- `slice(0, n)`. -/
def sliceTo (n : ℕ) (s : String) : String := String.ofList (sliceUnits n s.toList)

/-- Lexicographic `<` on code units. -/
def unitsLt : List ℕ → List ℕ → Bool
  | [], [] => false
  | [], _ :: _ => true
  | _ :: _, [] => false
  | a :: as, b :: bs => a < b || (a == b && unitsLt as bs)

/-- The `<` operator on strings. -/
def jsLt (a b : String) : Bool :=
  unitsLt (a.toList.flatMap utf16Units) (b.toList.flatMap utf16Units)

/-- The `<=` operator on strings. -/
def jsLe (a b : String) : Bool := !jsLt b a

/-- The code units of a text. -/
def units (s : String) : List ℕ := s.toList.flatMap utf16Units

/-- A text is told by its code units: no character is half of a surrogate pair. -/
theorem flatMap_utf16Units_inj {cs ds : List Char}
    (h : cs.flatMap utf16Units = ds.flatMap utf16Units) : cs = ds := by
  have hvalid : ∀ c : Char, c.toNat < 0xD800 ∨ 0xDFFF < c.toNat ∧ c.toNat < 0x110000 :=
    fun c => c.valid
  have hcons : ∀ c : Char, utf16Units c ≠ [] := by
    intro c
    rw [utf16Units]
    split <;> exact List.cons_ne_nil _ _
  induction cs generalizing ds with
  | nil =>
      cases ds with
      | nil => rfl
      | cons d ds =>
          rw [List.flatMap_nil, List.flatMap_cons] at h
          exact absurd (List.append_eq_nil_iff.mp h.symm).1 (hcons d)
  | cons c cs ih =>
      cases ds with
      | nil =>
          rw [List.flatMap_nil, List.flatMap_cons] at h
          exact absurd (List.append_eq_nil_iff.mp h).1 (hcons c)
      | cons d ds =>
          rw [List.flatMap_cons, List.flatMap_cons, utf16Units, utf16Units] at h
          have hc := hvalid c
          have hd := hvalid d
          have hsame : c.toNat = d.toNat → c = d := fun h => Char.toNat_inj.mp h
          split at h <;> split at h <;> simp only [List.cons_append, List.nil_append,
            List.cons.injEq] at h
          · rw [hsame h.1, ih h.2]
          · omega
          · omega
          · rw [hsame (by omega), ih h.2.2]

theorem units_inj (h : units a = units b) : a = b :=
  String.toList_inj.mp (flatMap_utf16Units_inj h)

theorem unitsLt_iff {as bs : List ℕ} : unitsLt as bs = true ↔ as < bs := by
  induction as generalizing bs with
  | nil => cases bs <;> simp [unitsLt]
  | cons a as ih =>
      cases bs with
      | nil => simp [unitsLt]
      | cons b bs => simp [unitsLt, ih, List.cons_lt_cons_iff]

/-- The comparison of texts is the lexicographic order of their code units. -/
theorem jsLe_iff : jsLe a b = true ↔ units a ≤ units b := by
  rw [jsLe, jsLt, Bool.not_eq_true', ← Bool.not_eq_true, unitsLt_iff, not_lt]
  rfl

theorem jsLe_trans (a b c : String) (hab : jsLe a b = true) (hbc : jsLe b c = true) :
    jsLe a c = true := jsLe_iff.mpr ((jsLe_iff.mp hab).trans (jsLe_iff.mp hbc))

theorem jsLe_total (a b : String) : (jsLe a b || jsLe b a) = true := by
  rw [Bool.or_eq_true, jsLe_iff, jsLe_iff]
  exact le_total (units a) (units b)

theorem jsLe_antisymm (hab : jsLe a b = true) (hba : jsLe b a = true) : a = b :=
  units_inj ((jsLe_iff.mp hab).antisymm (jsLe_iff.mp hba))

/-- `[...].sort()`. -/
def sorted (xs : List String) : List String := xs.mergeSort jsLe

/-- Sorting tells whether two lists have the same entries. -/
theorem sorted_eq_iff {xs ys : List String} : sorted xs = sorted ys ↔ xs.Perm ys := by
  constructor
  · intro h
    have hsorted : (xs.mergeSort jsLe).Perm ys := by
      rw [show xs.mergeSort jsLe = ys.mergeSort jsLe from h]
      exact List.mergeSort_perm ys jsLe
    exact (List.mergeSort_perm xs jsLe).symm.trans hsorted
  · intro h
    have hle : ∀ a b, a ∈ xs.mergeSort jsLe → b ∈ ys.mergeSort jsLe →
        jsLe a b = true → jsLe b a = true → a = b := fun a b _ _ => jsLe_antisymm
    refine List.Perm.eq_of_pairwise hle
      (List.pairwise_mergeSort jsLe_trans jsLe_total xs)
      (List.pairwise_mergeSort jsLe_trans jsLe_total ys) ?_
    exact (List.mergeSort_perm xs jsLe).trans (h.trans (List.mergeSort_perm ys jsLe).symm)

/-- The white space and line terminators that `trim` strips. -/
def isTrimmed (c : Char) : Bool :=
  c.toNat ∈ [0x09, 0x0A, 0x0B, 0x0C, 0x0D, 0x20, 0xA0, 0x1680, 0x2000, 0x2001, 0x2002,
    0x2003, 0x2004, 0x2005, 0x2006, 0x2007, 0x2008, 0x2009, 0x200A, 0x2028, 0x2029,
    0x202F, 0x205F, 0x3000, 0xFEFF]

/-- `String.prototype.trim`. -/
def trim (s : String) : String :=
  String.ofList ((((s.toList.dropWhile isTrimmed).reverse).dropWhile isTrimmed).reverse)

/-- What `trim` takes away. -/
theorem exists_trim (text : String) : ∃ leading trailing,
    text.toList = leading ++ (trim text).toList ++ trailing ∧
    (∀ c ∈ leading, isTrimmed c = true) ∧ ∀ c ∈ trailing, isTrimmed c = true := by
  set rest := text.toList.dropWhile isTrimmed with hrest
  refine ⟨text.toList.takeWhile isTrimmed, (rest.reverse.takeWhile isTrimmed).reverse, ?_,
    fun c hc => List.mem_takeWhile_imp hc,
    fun c hc => List.mem_takeWhile_imp (List.mem_reverse.mp hc)⟩
  have hsplit : rest = (rest.reverse.dropWhile isTrimmed).reverse ++
      (rest.reverse.takeWhile isTrimmed).reverse := by
    rw [← List.reverse_append, List.takeWhile_append_dropWhile, List.reverse_reverse]
  rw [trim, String.toList_ofList, List.append_assoc, ← hsplit, hrest,
    List.takeWhile_append_dropWhile]

/-- What has no white space is found between white space. -/
theorem trim_of_surrounded {s : String} {leading core trailing : List Char}
    (hs : s.toList = leading ++ core ++ trailing) (hleading : ∀ c ∈ leading, isTrimmed c = true)
    (htrailing : ∀ c ∈ trailing, isTrimmed c = true) (hne : core ≠ [])
    (hcore : ∀ c ∈ core, isTrimmed c = false) : trim s = String.ofList core := by
  have hfirst : (core ++ trailing).dropWhile isTrimmed = core ++ trailing := by
    obtain ⟨c, cs, rfl⟩ := List.exists_cons_of_ne_nil hne
    rw [List.cons_append, List.dropWhile_cons_of_neg (by rw [hcore c List.mem_cons_self]; nofun)]
  have hlast : core.reverse.dropWhile isTrimmed = core.reverse := by
    obtain ⟨c, cs, hreverse⟩ := List.exists_cons_of_ne_nil (List.reverse_ne_nil_iff.mpr hne)
    have hc : c ∈ core := List.mem_reverse.mp (hreverse ▸ List.mem_cons_self)
    rw [hreverse, List.dropWhile_cons_of_neg (by rw [hcore c hc]; nofun)]
  rw [trim, hs, List.append_assoc, List.dropWhile_append_of_pos hleading, hfirst,
    List.reverse_append, List.dropWhile_append_of_pos fun c hc =>
      htrailing c (List.mem_reverse.mp hc),
    hlast, List.reverse_reverse]

/-- `!s.trim()`: nothing but white space. -/
def isBlank (s : String) : Bool := s.toList.all isTrimmed

/-- A value of an optional string is truthy when it is present and not empty. -/
def truthy : Option String → Bool
  | some s => s ≠ ""
  | none => false

/-! ### Dates -/

/-- The largest magnitude of a time value, 100 million days. -/
def maxTimeValue : ℤ := 8640000000000000

/-- Year, month and day of a day number counted from 1970-01-01, in the proleptic
Gregorian calendar. -/
def civilFromDays (days : ℤ) : ℤ × ℕ × ℕ :=
  let z := days + 719468
  let era := z.fdiv 146097
  let doe := (z - era * 146097).toNat
  let yoe := (doe - doe / 1460 + doe / 36524 - doe / 146096) / 365
  let doy := doe - (365 * yoe + yoe / 4 - yoe / 100)
  let mp := (5 * doy + 2) / 153
  let day := doy - (153 * mp + 2) / 5 + 1
  let month := if mp < 10 then mp + 3 else mp - 9
  ((yoe : ℤ) + era * 400 + (if month ≤ 2 then 1 else 0), month, day)

/-- The day number of a calendar date, the inverse of `civilFromDays`. -/
def daysFromCivil (year : ℤ) (month day : ℕ) : ℤ :=
  let y := if month ≤ 2 then year - 1 else year
  let era := y.fdiv 400
  let yoe := (y - era * 400).toNat
  let mp := if 2 < month then month - 3 else month + 9
  let doy := (153 * mp + 2) / 5 + day - 1
  let doe := yoe * 365 + yoe / 4 - yoe / 100 + doy
  era * 146097 + (doe : ℤ) - 719468

/-- The decimal digit of `n`. -/
def digitChar (n : ℕ) : Char := Char.ofNat (0x30 + n % 10)

/-- `n` in exactly `width` decimal digits. -/
def padded : (width : ℕ) → (n : ℕ) → List Char
  | 0, _ => []
  | w + 1, n => padded w (n / 10) ++ [digitChar n]

/-- Four digits for the years 0 to 9999, a sign and six digits elsewhere. -/
def yearText (year : ℤ) : List Char :=
  if 0 ≤ year ∧ year ≤ 9999 then padded 4 year.toNat
  else (if year < 0 then '-' else '+') :: padded 6 year.natAbs

/-- `new Date(t).toISOString()` for a time value within range; `none` where the call
throws a `RangeError`. -/
def toISOString (t : ℤ) : Option String :=
  if t.natAbs ≤ maxTimeValue.toNat then
    let days := t.fdiv 86400000
    let ms := (t - days * 86400000).toNat
    let (year, month, day) := civilFromDays days
    some (String.ofList (yearText year ++ '-' :: padded 2 month ++ '-' :: padded 2 day ++
      'T' :: padded 2 (ms / 3600000) ++ ':' :: padded 2 (ms / 60000 % 60) ++
      ':' :: padded 2 (ms / 1000 % 60) ++ '.' :: padded 3 (ms % 1000) ++ ['Z']))
  else none

/-- The value of a string of decimal digits. -/
def digitsValue (cs : List Char) : Option ℕ :=
  cs.foldl (fun acc c => acc.bind fun n =>
    if '0' ≤ c ∧ c ≤ '9' then some (10 * n + (c.toNat - 0x30)) else none) (some 0)

/-- The signed or four-digit year at the head of an ISO text, and what follows it. -/
def takeYear : List Char → Option (ℤ × List Char)
  | '+' :: rest => (digitsValue (rest.take 6)).map fun y => ((y : ℤ), rest.drop 6)
  | '-' :: rest => (digitsValue (rest.take 6)).map fun y => (-(y : ℤ), rest.drop 6)
  | cs => (digitsValue (cs.take 4)).map fun y => ((y : ℤ), cs.drop 4)

/-- The time value an ISO text of the full format would denote. Only texts that
`toISOString` gives back unchanged are told apart by the code, so nothing else about the
format is checked here. -/
def isoTimeValue (s : String) : Option ℤ := do
  let (year, rest) ← takeYear s.toList
  let field (i w : ℕ) : Option ℕ := digitsValue ((rest.drop i).take w)
  let month ← field 1 2
  let day ← field 4 2
  let hour ← field 7 2
  let minute ← field 10 2
  let second ← field 13 2
  let milli ← field 16 3
  pure (daysFromCivil year month day * 86400000 + (hour : ℤ) * 3600000 +
    (minute : ℤ) * 60000 + (second : ℤ) * 1000 + (milli : ℤ))

/-- `isCanonicalUtcTimestamp`: the string is `toISOString` of some time value. A string
outside the ISO format fails whatever the host's `Date.parse` makes of it, because
`toISOString` only writes that format. -/
def isCanonicalUtcTimestamp (s : String) : Bool :=
  match isoTimeValue s with
  | some t => toISOString t == some s
  | none => false

example : toISOString 0 = some "1970-01-01T00:00:00.000Z" := by decide

example : isCanonicalUtcTimestamp "2026-07-11T10:00:40.000Z" = true := by decide

/-- What the language leaves to the host: `Date.parse` outside the ISO format, and the
collation behind `localeCompare`. -/
structure HostRuntime where
  dateParse : String → Option ℤ
  localeCompare : String → String → Ordering

/-- `new Date(start + durationMs).toISOString()`: the sum is truncated towards zero, and
`none` stands for the `RangeError` of an invalid date. -/
def isoAfter (start : Option ℤ) (durationMs : JsNumber) : Option String := do
  let t ← start
  let d ← durationMs
  let sum := (t : ℚ) + d
  toISOString (Int.tdiv sum.num sum.den)

/-- The element that `[...].sort(compare)[0]` puts first: the earliest of the least
elements. -/
def sortFirst {α : Type} (compare : α → α → Ordering) : List α → Option α
  | [] => none
  | x :: xs => some (xs.foldl (fun best y => if compare y best = .lt then y else best) x)

theorem sortFirst_mem {α : Type} {compare : α → α → Ordering} {xs : List α} {x : α}
    (h : sortFirst compare xs = some x) : x ∈ xs := by
  cases xs with
  | nil => simp [sortFirst] at h
  | cons y ys =>
      have key : ∀ (zs : List α) (b : α),
          zs.foldl (fun best z => if compare z best = .lt then z else best) b ∈ b :: zs := by
        intro zs
        induction zs with
        | nil => intro b; simp
        | cons z zs ih =>
            intro b
            rw [List.foldl_cons]
            by_cases hlt : compare z b = .lt
            · rw [if_pos hlt]
              exact List.mem_cons_of_mem b (ih z)
            · rw [if_neg hlt]
              exact List.cons_subset_cons b (List.subset_cons_self z zs) (ih b)
      obtain rfl : ys.foldl (fun best z => if compare z best = .lt then z else best) y = x := by
        simpa [sortFirst] using h
      exact key ys y

end MailPortal
