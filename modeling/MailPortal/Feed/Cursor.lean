import MailPortal.Lib.Base64
import MailPortal.Lib.Failure
import MailPortal.Lib.JsonRecord
import MailPortal.Platform.Text

/-!
# Cursors of the Change Feed

The feed of the changes of a mailbox is read in pages, from a cursor on. A cursor is the sequence
number of the last change that was read, as a record in JSON and base64. A text is a cursor only if
it is the text that the number is written as, so that two texts never stand for one number.

Main results:

* `decode_iff_encode` : the texts that are read are those that are written.
-/

namespace MailPortal.Feed

open Failure

variable {sequence : ℤ} {n : ℕ} {value : String}

/-! ### Bytes -/

/-- `btoa` with its three replacements. -/
def encodeBase64Url (value : List UInt8) : String := String.ofList (Base64.encode value)

def isBase64Url (c : Char) : Bool := (Base64.urlValue c).isSome

def decodeBase64Url (value : String) : Option (List UInt8) :=
  if !value.toList.all isBase64Url || codeUnits value % 4 = 1 then none
  else Base64.decode value.toList

/-! ### The codec -/

def MAILBOX_CHANGE_LIMITS.cursorChars : ℕ := 256

/-- A `MailboxChangeQueryError` is its message. -/
abbrev Checked (α : Type) : Type := Except String α

def cursorError : String := "Mailbox change cursor is invalid"

/-- `Object.keys` -/
def objectKeys : Json → Option (List String)
  | .obj members => some (members.map Prod.fst)
  | _ => none

/-- `keys.join(",")` -/
def joinKeys (keys : List String) : String := String.intercalate "," keys

/-- What a cursor says. -/
def cursorRecord (sequence : ℤ) : Json := .obj [("v", .ofInt 1), ("s", .ofInt sequence)]

def encodeMailboxChangeCursor (sequence : ℤ) : Checked String :=
  if !Json.isSafe sequence || sequence < 0 then .error cursorError
  else .ok (encodeBase64Url (utf8Encode (Json.stringify (cursorRecord sequence))))

def decodeMailboxChangeCursor (value : String) : Checked ℤ := do
  require (value ≠ "" && codeUnits value ≤ MAILBOX_CHANGE_LIMITS.cursorChars &&
    value.toList.all isBase64Url) cursorError
  let bytes ← orThrow (decodeBase64Url value) cursorError
  let parsed ← orThrow ((utf8Decode bytes).bind Json.parse) cursorError
  let keys ← orThrow (objectKeys parsed) cursorError
  require (joinKeys keys = "v,s" && parsed.integerAt "v" = some 1) cursorError
  let sequence ← orThrow (parsed.integerAt "s") cursorError
  require (0 ≤ sequence) cursorError
  let canonical ← encodeMailboxChangeCursor sequence
  require (canonical = value) cursorError
  return sequence

/-! ### Texts -/

theorem isBase64Url_ascii {c : Char} (h : isBase64Url c = true) : c.toNat < 128 := by
  rw [isBase64Url, Base64.urlValue] at h
  split_ifs at h with hupper hlower hdigit hminus hunderscore
  · exact Nat.lt_of_le_of_lt hupper.2 (by decide)
  · exact Nat.lt_of_le_of_lt hlower.2 (by decide)
  · exact Nat.lt_of_le_of_lt hdigit.2 (by decide)
  · rw [hminus]
    decide
  · rw [hunderscore]
    decide
  · cases h

theorem codeUnits_ascii {cs : List Char} (h : ∀ c ∈ cs, c.toNat < 128) :
    codeUnits (String.ofList cs) = cs.length := by
  rw [codeUnits, String.toList_ofList]
  induction cs with
  | nil => rfl
  | cons c cs ih =>
      have hc := h c List.mem_cons_self
      have hunits : utf16Units c = [c.toNat] := by
        rw [utf16Units, if_pos (by omega)]
      rw [List.flatMap_cons, List.length_append, hunits,
        ih fun d hd => h d (List.mem_cons_of_mem c hd), List.length_singleton,
        List.length_cons, Nat.add_comm]

/-- What is written in base64 is read. -/
theorem decodeBase64Url_encode (value : List UInt8) :
    decodeBase64Url (encodeBase64Url value) = some value := by
  have halphabet : (Base64.encode value).all isBase64Url = true :=
    List.all_eq_true.mpr (Base64.encode_alphabet value)
  have hlength : codeUnits (encodeBase64Url value) = (Base64.encode value).length :=
    codeUnits_ascii fun c hc => isBase64Url_ascii (Base64.encode_alphabet value c hc)
  have hmod := Base64.length_encode_mod value
  rw [decodeBase64Url, hlength, encodeBase64Url, String.toList_ofList, halphabet, if_neg,
    Base64.decode_encode]
  simpa using hmod

/-! ### Records -/

theorem cursorRecord_plain (h : Json.isSafe sequence = true) : (cursorRecord sequence).Plain := by
  refine Json.plain_obj (by simp) fun m hm => ?_
  rcases List.mem_cons.mp hm with rfl | hm
  · exact Json.plain_ofInt (by decide)
  · rw [List.mem_singleton.mp hm]
    exact Json.plain_ofInt h

theorem numberText_natCast (n : ℕ) : Json.numberText (n : ℚ) = Json.natText n := by
  have hdecimals : Json.decimals (n : ℚ) = 0 := by
    rw [Json.decimals, Rat.den_natCast]
    rfl
  have hnonneg : ¬ (n : ℚ) < 0 := not_lt.mpr (Nat.cast_nonneg n)
  simp [Json.numberText, hdecimals, hnonneg]

theorem length_natText_le (h : n ≤ Json.maxSafeInteger) : (Json.natText n).length ≤ 16 := by
  rw [Json.natText]
  split
  · decide
  · rw [List.length_reverse, List.length_map, Nat.digits_length_le_iff (by decide)]
    exact Nat.lt_of_le_of_lt h (by decide)

/-- The text of a cursor's record. -/
theorem stringify_cursorRecord (n : ℕ) : Json.stringify (cursorRecord n) =
    String.ofList ("\x7b\"v\":1,\"s\":".toList ++ Json.natText n ++ ['}']) := by
  have hone : Json.numberText (1 : ℚ) = ['1'] := by
    have hone := numberText_natCast 1
    rw [Nat.cast_one] at hone
    rw [hone]
    rfl
  simp [Json.stringify, cursorRecord, Json.chars, Json.moreMembers, Json.ofInt, Json.quoted,
    Json.escapeChar, hone, numberText_natCast]

theorem cursorRecord_version (sequence : ℤ) :
    (cursorRecord sequence).integerAt "v" = some 1 := by
  have hone : (Json.ofInt 1).asSafeInteger = some 1 := Json.asSafeInteger_ofInt (by decide)
  exact hone

theorem cursorRecord_sequence (h : Json.isSafe sequence = true) :
    (cursorRecord sequence).integerAt "s" = some sequence := Json.asSafeInteger_ofInt h

/-- The text of a record is read as the record. -/
theorem cursorRecord_read (h : Json.isSafe n = true) :
    (utf8Decode (utf8Encode (Json.stringify (cursorRecord n)))).bind Json.parse =
      some (cursorRecord n) := by
  rw [utf8Decode_encode, Option.bind_some, Json.parse_stringify (cursorRecord_plain h)]
  rw [stringify_cursorRecord]
  simp

/-! ### What is written reads back -/

theorem encode_eq_ok (h : encodeMailboxChangeCursor sequence = .ok value) :
    ∃ n : ℕ, sequence = n ∧ n ≤ Json.maxSafeInteger ∧ Json.isSafe sequence = true ∧
      value = encodeBase64Url (utf8Encode (Json.stringify (cursorRecord n))) := by
  rw [encodeMailboxChangeCursor] at h
  split at h
  · cases h
  · rename_i hvalid
    obtain ⟨hsafe, hnonneg⟩ : Json.isSafe sequence = true ∧ 0 ≤ sequence := by
      simpa using hvalid
    obtain ⟨n, rfl⟩ := Int.eq_ofNat_of_zero_le hnonneg
    refine ⟨n, rfl, ?_, hsafe, (Except.ok.inj h).symm⟩
    simpa [Json.isSafe] using hsafe

theorem cursor_length (h : n ≤ Json.maxSafeInteger) :
    3 * (Base64.encode (utf8Encode (Json.stringify (cursorRecord n)))).length ≤ 466 := by
  have hbytes := length_utf8Encode_le ("\x7b\"v\":1,\"s\":".toList ++ Json.natText n ++ ['}'])
  have hdigits := length_natText_le h
  have htext := Base64.length_encode_le (utf8Encode (Json.stringify (cursorRecord n)))
  have hfixed : "\x7b\"v\":1,\"s\":".toList.length = 11 := rfl
  rw [stringify_cursorRecord] at htext ⊢
  rw [List.length_append, List.length_append, List.length_singleton, hfixed] at hbytes
  omega

/-- The cursor of a number passes the tests on its characters. -/
theorem cursor_chars (h : n ≤ Json.maxSafeInteger) (hsafe : Json.isSafe n = true)
    (hvalue : value = encodeBase64Url (utf8Encode (Json.stringify (cursorRecord n)))) :
    (value ≠ "" && codeUnits value ≤ MAILBOX_CHANGE_LIMITS.cursorChars &&
      value.toList.all isBase64Url) = true := by
  have halphabet : ∀ c ∈ value.toList, isBase64Url c = true := by
    rw [hvalue, encodeBase64Url, String.toList_ofList]
    exact Base64.encode_alphabet _
  have hlength : 3 * codeUnits value ≤ 466 := by
    rw [← String.ofList_toList (s := value),
      codeUnits_ascii fun c hc => isBase64Url_ascii (halphabet c hc)]
    rw [hvalue, encodeBase64Url, String.toList_ofList]
    exact cursor_length h
  have hne : value ≠ "" := by
    rintro rfl
    have hempty : decodeBase64Url "" = some (utf8Encode (Json.stringify (cursorRecord n))) :=
      (congrArg decodeBase64Url hvalue).trans (decodeBase64Url_encode _)
    have hnone : (utf8Decode []).bind Json.parse = none := by decide +kernel
    have hread := cursorRecord_read hsafe
    have hnothing : decodeBase64Url "" = some [] := by decide +kernel
    rw [Option.some.inj (hempty.symm.trans hnothing), hnone] at hread
    cases hread
  have hunits : codeUnits value ≤ MAILBOX_CHANGE_LIMITS.cursorChars := by
    rw [MAILBOX_CHANGE_LIMITS.cursorChars]
    omega
  simp only [hunits, decide_true, Bool.and_true, List.all_eq_true.mpr halphabet]
  simpa using hne

/-- **The cursor of a number is read as that number.** -/
theorem decode_of_encode (h : encodeMailboxChangeCursor sequence = .ok value) :
    decodeMailboxChangeCursor value = .ok sequence := by
  obtain ⟨n, rfl, hle, hsafe, hvalue⟩ := encode_eq_ok h
  have hbytes : decodeBase64Url value = some (utf8Encode (Json.stringify (cursorRecord n))) := by
    rw [hvalue, decodeBase64Url_encode]
  have hrecord : (joinKeys ["v", "s"] = "v,s" &&
      (cursorRecord n).integerAt "v" = some 1) = true := by
    rw [cursorRecord_version]
    rfl
  refine bind_eq_ok.mpr ⟨(), require_eq_ok.mpr (cursor_chars hle hsafe hvalue), ?_⟩
  refine bind_eq_ok.mpr ⟨_, orThrow_eq_ok.mpr hbytes, ?_⟩
  refine bind_eq_ok.mpr ⟨_, orThrow_eq_ok.mpr (cursorRecord_read hsafe), ?_⟩
  refine bind_eq_ok.mpr ⟨["v", "s"], rfl, ?_⟩
  refine bind_eq_ok.mpr ⟨(), require_eq_ok.mpr hrecord, ?_⟩
  refine bind_eq_ok.mpr ⟨_, orThrow_eq_ok.mpr (cursorRecord_sequence hsafe), ?_⟩
  refine bind_eq_ok.mpr ⟨(), require_eq_ok.mpr (decide_eq_true (Int.natCast_nonneg n)), ?_⟩
  refine bind_eq_ok.mpr ⟨value, h, ?_⟩
  exact bind_eq_ok.mpr ⟨(), require_eq_ok.mpr (decide_eq_true rfl), rfl⟩

/-- **A text is a cursor only if it is written so.** -/
theorem encode_of_decode (h : decodeMailboxChangeCursor value = .ok sequence) :
    encodeMailboxChangeCursor sequence = .ok value := by
  rw [decodeMailboxChangeCursor] at h
  obtain ⟨_, -, h⟩ := bind_eq_ok.mp h
  obtain ⟨bytes, -, h⟩ := bind_eq_ok.mp h
  obtain ⟨parsed, -, h⟩ := bind_eq_ok.mp h
  obtain ⟨keys, -, h⟩ := bind_eq_ok.mp h
  obtain ⟨_, -, h⟩ := bind_eq_ok.mp h
  obtain ⟨read, -, h⟩ := bind_eq_ok.mp h
  obtain ⟨_, -, h⟩ := bind_eq_ok.mp h
  obtain ⟨canonical, hcanonical, h⟩ := bind_eq_ok.mp h
  obtain ⟨_, hsame, h⟩ := bind_eq_ok.mp h
  have hsame : canonical = value := of_decide_eq_true (require_eq_ok.mp hsame)
  rw [← pure_eq_ok.mp h, hcanonical, hsame]

/-- **The texts that are read are those that are written.** -/
theorem decode_iff_encode (sequence : ℤ) (value : String) :
    decodeMailboxChangeCursor value = .ok sequence ↔
      encodeMailboxChangeCursor sequence = .ok value :=
  ⟨encode_of_decode, decode_of_encode⟩

end MailPortal.Feed
