import MailPortal.Lib.Utf16
import MailPortal.Platform.JavaScript

/-!
# Texts of the Platform

Texts as bytes of UTF-8, and as lists of code units, with the searches in them that the modelled
code relies on.

Main results:

* `utf8Decode_encode` : a text without a byte order mark is read as it was written.
* `lastIndexOf_append` : the last place of a unit.
-/

namespace MailPortal

open Utf16

variable {unit : UInt16}
variable {value after : Units}

/-! ### Bytes -/

/-- `new TextEncoder().encode` -/
def utf8Encode (text : String) : List UInt8 := text.toUTF8.data.toList

/-- `new TextDecoder("utf-8", { fatal: true }).decode`, which drops a byte order mark. -/
def utf8Decode (data : List UInt8) : Option String :=
  (String.fromUTF8? ⟨data.toArray⟩).map fun text =>
    match text.toList with
    | '\uFEFF' :: cs => String.ofList cs
    | _ => text

/-- What is written is read, but for a byte order mark. -/
theorem utf8Decode_encode {text : String} (h : text.toList.head? ≠ some '\uFEFF') :
    utf8Decode (utf8Encode text) = some text := by
  have hdata : (⟨(utf8Encode text).toArray⟩ : ByteArray) = text.toByteArray := by
    rw [utf8Encode, Array.toArray_toList, String.toUTF8_eq_toByteArray]
  have hbytes : String.fromUTF8? ⟨(utf8Encode text).toArray⟩ = some text := by
    rw [hdata, String.fromUTF8?, dif_pos text.isValidUTF8]
    rfl
  rw [utf8Decode, hbytes, Option.map_some]
  split
  · rename_i cs hcs
    rw [hcs] at h
    exact absurd rfl h
  · rfl

theorem length_utf8Encode_le (cs : List Char) :
    (utf8Encode (String.ofList cs)).length ≤ 4 * cs.length := by
  have hsize : (utf8Encode (String.ofList cs)).length = (cs.map Char.utf8Size).sum := by
    simp [utf8Encode, List.utf8Encode]
  rw [hsize]
  clear hsize
  induction cs with
  | nil => exact Nat.le_refl 0
  | cons c cs ih =>
      have hsize := Char.utf8Size_le_four c
      rw [List.map_cons, List.sum_cons, List.length_cons]
      omega

/-! ### Code units -/

/-- `<` -/
def LESS : UInt16 := 0x3C

/-- `>` -/
def GREATER : UInt16 := 0x3E

/-- `@` -/
def AT_SIGN : UInt16 := 0x40

/-- The code units of a text. -/
def unitsOf (s : String) : Units := (units s).map Nat.toUInt16

/-- `value.lastIndexOf(unit)` -/
def lastIndexOf (unit : UInt16) : Units → ℤ
  | [] => -1
  | u :: us =>
    let index := lastIndexOf unit us
    if 0 ≤ index then index + 1 else if u = unit then 0 else -1

theorem lastIndexOf_of_not_mem (h : unit ∉ value) : lastIndexOf unit value = -1 := by
  induction value with
  | nil => rfl
  | cons u us ih =>
    rw [lastIndexOf, ih (List.not_mem_of_not_mem_cons h), if_neg (by decide),
      if_neg (Ne.symm (List.ne_of_not_mem_cons h))]

theorem lastIndexOf_append (stem : Units) (h : unit ∉ after) :
    lastIndexOf unit (stem ++ unit :: after) = stem.length := by
  induction stem with
  | nil =>
    rw [List.nil_append, lastIndexOf, lastIndexOf_of_not_mem h, if_neg (by decide), if_pos rfl]
    rfl
  | cons u stem ih =>
    rw [List.cons_append, lastIndexOf, ih, if_pos (Int.natCast_nonneg _), List.length_cons]
    rfl

theorem exists_last_unit (h : unit ∈ value) :
    ∃ stem after, value = stem ++ unit :: after ∧ unit ∉ after := by
  induction value with
  | nil => cases h
  | cons u us ih =>
    by_cases hus : unit ∈ us
    · obtain ⟨stem, after, rfl, hafter⟩ := ih hus
      exact ⟨u :: stem, after, rfl, hafter⟩
    · obtain rfl := (List.mem_cons.mp h).resolve_right hus
      exact ⟨[], us, rfl, hus⟩

theorem last_unit_unique {stem stem' after' : Units}
    (h : stem ++ unit :: after = stem' ++ unit :: after') (hafter : unit ∉ after)
    (hafter' : unit ∉ after') : stem = stem' ∧ unit :: after = unit :: after' := by
  have hlength : stem.length = stem'.length := by
    have hindex := lastIndexOf_append stem hafter
    rw [h, lastIndexOf_append stem' hafter'] at hindex
    exact Int.ofNat.inj hindex.symm
  exact List.append_inj h hlength

/-- `\s`, which is also what `trim` takes. -/
def isSpaceUnit (u : UInt16) : Bool := isTrimmed (Char.ofNat u.toNat)

/-- What `.` does not match. -/
def isLineTerminator (u : UInt16) : Bool := u ∈ [0x0A, 0x0D, 0x2028, 0x2029]

end MailPortal
