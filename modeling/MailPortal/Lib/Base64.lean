import Mathlib.Data.Nat.Notation
import Mathlib.Tactic.Cases

/-!
# Base64 for URLs

Three bytes are four characters of an alphabet of 64, which is the one for URLs; a last group of one
or two bytes is two or three characters, without padding. A reader takes any bits for those that the
last character has too many.

Main results:

* `decode_encode` : what is written reads back.
* `length_encode_le` : how long it gets.
-/

namespace Base64

/-- The character of six bits. -/
def urlChar (n : ℕ) : Char :=
  if n < 26 then Char.ofNat (0x41 + n)
  else if n < 52 then Char.ofNat (0x61 + (n - 26))
  else if n < 62 then Char.ofNat (0x30 + (n - 52))
  else if n = 62 then '-'
  else '_'

/-- The six bits of a character. -/
def urlValue (c : Char) : Option ℕ :=
  if 'A' ≤ c ∧ c ≤ 'Z' then some (c.toNat - 0x41)
  else if 'a' ≤ c ∧ c ≤ 'z' then some (c.toNat - 0x61 + 26)
  else if '0' ≤ c ∧ c ≤ '9' then some (c.toNat - 0x30 + 52)
  else if c = '-' then some 62
  else if c = '_' then some 63
  else none

/-- The groups of six bits. -/
def sextets : List UInt8 → List ℕ
  | [] => []
  | [a] => [a.toNat / 4, a.toNat % 4 * 16]
  | [a, b] => [a.toNat / 4, a.toNat % 4 * 16 + b.toNat / 16, b.toNat % 16 * 4]
  | a :: b :: c :: bytes =>
      a.toNat / 4 :: (a.toNat % 4 * 16 + b.toNat / 16) :: (b.toNat % 16 * 4 + c.toNat / 64) ::
        c.toNat % 64 :: sextets bytes

/-- The bytes of groups of six bits. -/
def bytes : List ℕ → Option (List UInt8)
  | [] => some []
  | [_] => none
  | [p, q] => some [UInt8.ofNat (p * 4 + q / 16)]
  | [p, q, r] => some [UInt8.ofNat (p * 4 + q / 16), UInt8.ofNat (q % 16 * 16 + r / 4)]
  | p :: q :: r :: t :: rest =>
      (bytes rest).map fun more =>
        UInt8.ofNat (p * 4 + q / 16) :: UInt8.ofNat (q % 16 * 16 + r / 4) ::
          UInt8.ofNat (r % 4 * 64 + t) :: more

def encode (data : List UInt8) : List Char := (sextets data).map urlChar

def decode (cs : List Char) : Option (List UInt8) := (cs.mapM urlValue).bind bytes

/-! ### Characters -/

theorem urlValue_urlChar {n : ℕ} (h : n < 64) : urlValue (urlChar n) = some n := by
  have hall : ∀ i : Fin 64, urlValue (urlChar i) = some i.val := by decide
  exact hall ⟨n, h⟩

theorem mapM_urlChar {ns : List ℕ} (h : ∀ n ∈ ns, n < 64) :
    (ns.map urlChar).mapM urlValue = some ns := by
  induction ns with
  | nil => rfl
  | cons n ns ih =>
      rw [List.map_cons, List.mapM_cons, urlValue_urlChar (h n List.mem_cons_self),
        ih fun m hm => h m (List.mem_cons_of_mem n hm)]
      rfl

theorem sextets_lt (data : List UInt8) : ∀ n ∈ sextets data, n < 64 := by
  induction data using sextets.induct with
  | case1 => exact nofun
  | case2 a =>
      have ha := a.toNat_lt
      simp only [sextets, List.mem_cons, List.not_mem_nil, or_false]
      omega
  | case3 a b =>
      have ha := a.toNat_lt
      have hb := b.toNat_lt
      simp only [sextets, List.mem_cons, List.not_mem_nil, or_false]
      omega
  | case4 a b c data ih =>
      have ha := a.toNat_lt
      have hb := b.toNat_lt
      have hc := c.toNat_lt
      intro n hn
      simp only [sextets, List.mem_cons] at hn
      rcases hn with hn | hn | hn | hn | hn
      · omega
      · omega
      · omega
      · omega
      · exact ih n hn

/-- Every character is one of the alphabet. -/
theorem encode_alphabet (data : List UInt8) : ∀ c ∈ encode data, (urlValue c).isSome = true := by
  intro c hc
  obtain ⟨n, hn, rfl⟩ := List.mem_map.mp hc
  rw [urlValue_urlChar (sextets_lt data n hn)]
  rfl

/-! ### Groups -/

theorem ofNat_eq {n : ℕ} {a : UInt8} (h : n = a.toNat) : UInt8.ofNat n = a := by
  rw [h, UInt8.ofNat_toNat]

section

variable (data : List UInt8)
include data

theorem bytes_sextets : bytes (sextets data) = some data := by
  induction data using sextets.induct with
  | case1 => rfl
  | case2 a =>
      have ha := a.toNat_lt
      rw [sextets, bytes, ofNat_eq]
      omega
  | case3 a b =>
      have ha := a.toNat_lt
      have hb := b.toNat_lt
      have hfirst : a.toNat / 4 * 4 + (a.toNat % 4 * 16 + b.toNat / 16) / 16 = a.toNat := by omega
      have hsecond : (a.toNat % 4 * 16 + b.toNat / 16) % 16 * 16 + b.toNat % 16 * 4 / 4 =
          b.toNat := by omega
      rw [sextets, bytes, ofNat_eq hfirst, ofNat_eq hsecond]
  | case4 a b c data ih =>
      have ha := a.toNat_lt
      have hb := b.toNat_lt
      have hc := c.toNat_lt
      have hfirst : a.toNat / 4 * 4 + (a.toNat % 4 * 16 + b.toNat / 16) / 16 = a.toNat := by omega
      have hsecond : (a.toNat % 4 * 16 + b.toNat / 16) % 16 * 16 +
          (b.toNat % 16 * 4 + c.toNat / 64) / 4 = b.toNat := by omega
      have hthird : (b.toNat % 16 * 4 + c.toNat / 64) % 4 * 64 + c.toNat % 64 = c.toNat := by omega
      rw [sextets, bytes, ih, Option.map_some, ofNat_eq hfirst, ofNat_eq hsecond, ofNat_eq hthird]

/-- **What is written reads back.** -/
theorem decode_encode : decode (encode data) = some data := by
  rw [decode, encode, mapM_urlChar (sextets_lt data), Option.bind_some, bytes_sextets]

/-! ### Lengths -/

theorem length_sextets :
    3 * (sextets data).length ≤ 4 * data.length + 2 ∧ (sextets data).length % 4 ≠ 1 := by
  induction data using sextets.induct with
  | case1 => exact ⟨by simp [sextets], by simp [sextets]⟩
  | case2 a => exact ⟨by simp [sextets], by simp [sextets]⟩
  | case3 a b => exact ⟨by simp [sextets], by simp [sextets]⟩
  | case4 a b c data ih =>
      simp only [sextets, List.length_cons]
      omega

theorem length_encode_le : 3 * (encode data).length ≤ 4 * data.length + 2 := by
  rw [encode, List.length_map]
  exact (length_sextets data).1

theorem length_encode_mod : (encode data).length % 4 ≠ 1 := by
  rw [encode, List.length_map]
  exact (length_sextets data).2

end

end Base64
