import Mathlib.Data.List.Forall2
import Mathlib.Data.Nat.Digits.Defs
import MailPortal.Lib.Separated

/-!
# Internet Addresses as Texts

The texts of an address: four decimal octets with dots; or groups of one to four hexadecimal digits
with colons, of which a double colon may stand for one or more groups of zeros, and the last two may
be written as four octets. The grammar is of texts in lower case.

Main results:

* `group_toHex` : a group is spelled by its hexadecimal digits.
* `Spells.chars` : the characters of an address.
* `Spells.length_le` : the length of an address.
-/

namespace IpAddress

variable {d n k : ℕ} {c : Char} {cs : List Char} {octets : List ℕ} {parts : List (List Char)}

/-- An address: four octets, or eight groups of sixteen bits. -/
inductive Address
  | v4 (octets : List ℕ)
  | v6 (groups : List ℕ)
  deriving DecidableEq

variable {address : Address}

/-! ### Digits -/

def hexValue (c : Char) : Option ℕ :=
  if '0' ≤ c ∧ c ≤ '9' then some (c.toNat - 48)
  else if 'a' ≤ c ∧ c ≤ 'f' then some (c.toNat - 87)
  else none

/-- The number that hexadecimal digits spell, behind what was read. -/
def hexFrom (n : ℕ) : List Char → Option ℕ
  | [] => some n
  | c :: cs => (hexValue c).bind fun d => hexFrom (16 * n + d) cs

/-- One to four digits, of a group. -/
def Group (cs : List Char) (n : ℕ) : Prop :=
  1 ≤ cs.length ∧ cs.length ≤ 4 ∧ hexFrom 0 cs = some n

/-! ### Texts -/

/-- Four octets, without leading zeros. -/
structure Quad (cs : List Char) (octets : List ℕ) : Prop where
  length : octets.length = 4
  bound : ∀ octet ∈ octets, octet < 256
  text : cs = ['.'].intercalate (octets.map (Nat.toDigits 10))

def joined (parts : List (List Char)) : List Char := [':'].intercalate parts

/-- The two groups that four octets are. -/
def quadGroups : List ℕ → List ℕ
  | [a, b, c, d] => [256 * a + b, 256 * c + d]
  | _ => []

/-- Parts that are groups, of which the last two may be four octets. -/
inductive Groups : List (List Char) → List ℕ → Prop
  | plain {parts : List (List Char)} {groups : List ℕ} (h : List.Forall₂ Group parts groups) :
      Groups parts groups
  | quad {parts : List (List Char)} {groups : List ℕ} {cs : List Char} {octets : List ℕ}
      (h : List.Forall₂ Group parts groups) (hquad : Quad cs octets) :
      Groups (parts ++ [cs]) (groups ++ quadGroups octets)

/-- The texts of eight groups. -/
inductive SpellsGroups : List Char → List ℕ → Prop
  | full {parts : List (List Char)} {groups : List ℕ} (h : Groups parts groups)
      (hlength : groups.length = 8) : SpellsGroups (joined parts) groups
  | compressed {left right : List (List Char)} {before after : List ℕ}
      (hleft : List.Forall₂ Group left before) (hright : Groups right after)
      (hlength : before.length + after.length ≤ 7) :
      SpellsGroups (joined left ++ ':' :: ':' :: joined right)
        (before ++ (List.replicate (8 - before.length - after.length) 0 ++ after))

/-- The texts of an address. -/
inductive Spells : List Char → Address → Prop
  | v4 {cs : List Char} {octets : List ℕ} (h : Quad cs octets) : Spells cs (.v4 octets)
  | v6 {cs : List Char} {groups : List ℕ} (h : SpellsGroups cs groups) : Spells cs (.v6 groups)

/-! ### The digits of a group -/

theorem hexValue_digitChar (h : d < 16) : hexValue d.digitChar = some d := by
  have hall : ∀ d < 16, hexValue d.digitChar = some d := by decide
  exact hall d h

theorem hexFrom_append (n : ℕ) (cs ds : List Char) :
    hexFrom n (cs ++ ds) = (hexFrom n cs).bind fun m => hexFrom m ds := by
  induction cs generalizing n with
  | nil => rfl
  | cons c cs ih =>
    rw [List.cons_append, hexFrom, hexFrom]
    cases hexValue c with
    | none => rfl
    | some d => exact ih _

theorem hexFrom_toDigits (n : ℕ) : hexFrom 0 (Nat.toDigits 16 n) = some n := by
  induction n using Nat.strongRecOn with
  | ind n ih =>
    rw [Nat.toDigits_eq_if (by decide)]
    split
    · rename_i hlt
      rw [hexFrom, hexValue_digitChar hlt, Option.bind_some, hexFrom, Nat.mul_zero, Nat.zero_add]
    · rename_i hge
      rw [hexFrom_append, ih (n / 16) (by omega), Option.bind_some, hexFrom,
        hexValue_digitChar (Nat.mod_lt n (by decide)), Option.bind_some, hexFrom, Nat.div_add_mod]

/-- **A group** is spelled by its hexadecimal digits. -/
theorem group_toHex (h : n < 2 ^ 16) : Group (Nat.toDigits 16 n) n :=
  ⟨Nat.length_toDigits_pos, (Nat.length_toDigits_le_iff (by decide) (by decide)).mpr h,
    hexFrom_toDigits n⟩

theorem hexValue_lt (h : hexValue c = some d) : d < 16 := by
  unfold hexValue at h
  split at h
  · rename_i hdigit
    have hle := hdigit.2
    simp only [Char.le_def, UInt32.le_iff_toNat_le] at hle
    cases h
    have htop : ('9' : Char).val.toNat = 57 := rfl
    have hnat : c.toNat = c.val.toNat := rfl
    omega
  · split at h
    · rename_i hletter
      have hle := hletter.2
      simp only [Char.le_def, UInt32.le_iff_toNat_le] at hle
      cases h
      have htop : ('f' : Char).val.toNat = 102 := rfl
      have hnat : c.toNat = c.val.toNat := rfl
      omega
    · exact absurd h nofun

/-- Digits spell a number. -/
theorem hexFrom_isSome : (hexFrom n cs).isSome = true ↔ ∀ c ∈ cs, (hexValue c).isSome = true := by
  induction cs generalizing n with
  | nil => exact ⟨fun _ c hc => absurd hc List.not_mem_nil, fun _ => rfl⟩
  | cons c cs ih =>
    rw [List.forall_mem_cons, hexFrom]
    cases hexValue c with
    | none => exact ⟨nofun, fun h => absurd h.1 nofun⟩
    | some d => exact ih.trans ⟨fun h => ⟨rfl, h⟩, fun h => h.2⟩

theorem hexFrom_lt {m : ℕ} (h : hexFrom n cs = some m) : m < (n + 1) * 16 ^ cs.length := by
  induction cs generalizing n with
  | nil =>
    obtain rfl := Option.some.inj h
    rw [List.length_nil, pow_zero, Nat.mul_one]
    exact Nat.lt_succ_self n
  | cons c cs ih =>
    rw [hexFrom, Option.bind_eq_some_iff] at h
    obtain ⟨d, hd, hrest⟩ := h
    have hlt := hexValue_lt hd
    calc m < (16 * n + d + 1) * 16 ^ cs.length := ih hrest
      _ ≤ (n + 1) * 16 * 16 ^ cs.length := Nat.mul_le_mul_right _ (by omega)
      _ = (n + 1) * 16 ^ (c :: cs).length := by rw [List.length_cons, pow_succ]; ring

theorem Group.lt (h : Group cs n) : n < 2 ^ 16 := by
  have hlt := hexFrom_lt h.2.2
  have hle : 16 ^ cs.length ≤ 16 ^ 4 := Nat.pow_le_pow_right (by decide) h.2.1
  omega

/-! ### The characters of an address -/

/-- A hexadecimal digit in lower case, a colon or a dot. -/
def IsAddressChar (c : Char) : Prop := (hexValue c).isSome = true ∨ c = ':' ∨ c = '.'

theorem Group.chars (h : Group cs n) : ∀ c ∈ cs, (hexValue c).isSome = true :=
  hexFrom_isSome.mp (by rw [h.2.2]; rfl)

theorem Group.ne_nil (h : Group cs n) : cs ≠ [] :=
  List.ne_nil_of_length_pos h.1

/-- The characters of decimal digits. -/
theorem hexValue_of_isDigit (h : c.isDigit = true) : (hexValue c).isSome = true := by
  rw [Char.isDigit, Bool.and_eq_true, decide_eq_true_eq, decide_eq_true_eq] at h
  rw [hexValue, if_pos ⟨h.1, h.2⟩]
  rfl

theorem isDigit_of_mem (h : c ∈ Nat.toDigits 10 n) : c.isDigit = true :=
  Nat.isDigit_of_mem_toDigits (by decide) (by decide) h

theorem Quad.chars (h : Quad cs octets) : ∀ c ∈ cs, c.isDigit = true ∨ c = '.' := by
  intro c hc
  rw [h.text] at hc
  rcases Separated.mem_intercalate hc with rfl | ⟨part, hpart, hc⟩
  · exact Or.inr rfl
  · obtain ⟨octet, -, rfl⟩ := List.mem_map.mp hpart
    exact Or.inl (isDigit_of_mem hc)

/-- Each part is a group. -/
theorem exists_group {groups : List ℕ} (h : List.Forall₂ Group parts groups) :
    ∀ part ∈ parts, ∃ n, Group part n := by
  induction h with
  | nil => exact nofun
  | cons hgroup _ ih => exact List.forall_mem_cons.mpr ⟨⟨_, hgroup⟩, ih⟩

theorem Groups.chars {groups : List ℕ} (h : Groups parts groups) :
    ∀ c ∈ joined parts, IsAddressChar c := by
  have hplain : ∀ {parts : List (List Char)} {groups : List ℕ}, List.Forall₂ Group parts groups →
      ∀ part ∈ parts, ∀ c ∈ part, IsAddressChar c := by
    intro parts groups hgroups part hpart c hc
    obtain ⟨n, hgroup⟩ := exists_group hgroups part hpart
    exact Or.inl (hgroup.chars c hc)
  have hparts : ∀ part ∈ parts, ∀ c ∈ part, IsAddressChar c := by
    cases h with
    | plain hgroups => exact hplain hgroups
    | quad hgroups hquad =>
      intro part hpart
      rcases List.mem_append.mp hpart with hpart | hpart
      · exact hplain hgroups part hpart
      · obtain rfl := List.mem_singleton.mp hpart
        exact fun c hc => (hquad.chars c hc).imp hexValue_of_isDigit Or.inr
  intro c hc
  rcases Separated.mem_intercalate hc with rfl | ⟨part, hpart, hin⟩
  · exact Or.inr (Or.inl rfl)
  · exact hparts part hpart c hin

theorem SpellsGroups.chars {groups : List ℕ} (h : SpellsGroups cs groups) :
    ∀ c ∈ cs, IsAddressChar c := by
  cases h with
  | full hgroups _ => exact hgroups.chars
  | compressed hleft hright _ =>
    intro c hc
    rcases List.mem_append.mp hc with hc | hc
    · exact (Groups.plain hleft).chars c hc
    · rcases List.mem_cons.mp hc with rfl | hc
      · exact Or.inr (Or.inl rfl)
      · rcases List.mem_cons.mp hc with rfl | hc
        · exact Or.inr (Or.inl rfl)
        · exact hright.chars c hc

/-- **The characters** of the text of an address. -/
theorem Spells.chars (h : Spells cs address) : ∀ c ∈ cs, IsAddressChar c := by
  cases h with
  | v4 hquad => exact fun c hc => (hquad.chars c hc).imp hexValue_of_isDigit Or.inr
  | v6 hgroups => exact hgroups.chars

/-! ### The length of an address -/

theorem length_intercalate_concat (sep : Char) (h : ∀ part ∈ parts, part.length ≤ k)
    (cs : List Char) :
    ([sep].intercalate (parts ++ [cs])).length ≤ (k + 1) * parts.length + cs.length := by
  induction parts with
  | nil => rw [List.nil_append, List.intercalate_singleton]; exact Nat.le_add_left _ _
  | cons p parts ih =>
    obtain ⟨hp, hparts⟩ := List.forall_mem_cons.mp h
    rw [List.cons_append, List.intercalate_cons_of_ne_nil (by simp), List.length_append,
      List.length_append, List.length_singleton, List.length_cons, Nat.mul_succ]
    have hrest := ih hparts
    omega

theorem length_intercalate_le (sep : Char) (h : ∀ part ∈ parts, part.length ≤ k) :
    ([sep].intercalate parts).length ≤ (k + 1) * parts.length - 1 := by
  rcases List.eq_nil_or_concat' parts with rfl | ⟨front, last, rfl⟩
  · exact Nat.zero_le _
  · rw [List.forall_mem_append] at h
    have hconcat := length_intercalate_concat sep h.1 last
    have hlast := h.2 last List.mem_cons_self
    rw [List.length_append, List.length_singleton, Nat.mul_succ]
    omega

theorem Quad.length_le (h : Quad cs octets) : cs.length ≤ 15 := by
  have hparts : ∀ part ∈ octets.map (Nat.toDigits 10), part.length ≤ 3 := by
    intro part hpart
    obtain ⟨octet, hmem, rfl⟩ := List.mem_map.mp hpart
    have hlt := h.bound octet hmem
    exact (Nat.length_toDigits_le_iff (by decide) (by decide)).mpr (by omega)
  have hle := length_intercalate_le '.' hparts
  rwa [← h.text, List.length_map, h.length] at hle

theorem length_le_of_groups {groups : List ℕ} (h : List.Forall₂ Group parts groups) :
    ∀ part ∈ parts, part.length ≤ 4 := by
  intro part hpart
  obtain ⟨n, hgroup⟩ := exists_group h part hpart
  exact hgroup.2.1

theorem length_quadGroups (h : octets.length = 4) : (quadGroups octets).length = 2 := by
  obtain ⟨a, b, c, d, rfl⟩ := List.length_eq_four.mp h
  rfl

theorem Groups.length_le {groups : List ℕ} (h : Groups parts groups) :
    (joined parts).length ≤ 5 * groups.length + 5 ∧ groups.length ≤ parts.length + 1 := by
  cases h with
  | plain hgroups =>
    have hle := length_intercalate_le ':' (length_le_of_groups hgroups)
    have hlength := hgroups.length_eq
    change (joined parts).length ≤ _ at hle
    omega
  | @quad parts groups cs octets hgroups hquad =>
    have hle := length_intercalate_concat ':' (length_le_of_groups hgroups) cs
    have hlength := hgroups.length_eq
    have hquadLength := hquad.length_le
    change (joined (parts ++ [cs])).length ≤ _ at hle
    rw [List.length_append, List.length_append, length_quadGroups hquad.length]
    simp only [List.length_singleton]
    omega

theorem SpellsGroups.length_le {groups : List ℕ} (h : SpellsGroups cs groups) : cs.length ≤ 45 := by
  cases h with
  | full hgroups hlength =>
    have hle := hgroups.length_le.1
    rw [hlength] at hle
    exact hle
  | compressed hleft hright hlength =>
    have hleftLe := length_intercalate_le ':' (length_le_of_groups hleft)
    have hrightLe := hright.length_le.1
    change (joined _).length ≤ _ at hleftLe
    rw [hleft.length_eq] at hleftLe
    rw [List.length_append, List.length_cons, List.length_cons]
    omega

/-- **The length** of the text of an address. -/
theorem Spells.length_le (h : Spells cs address) : cs.length ≤ 45 := by
  cases h with
  | v4 hquad => exact hquad.length_le.trans (by decide)
  | v6 hgroups => exact hgroups.length_le

/-! ### The groups of an address -/

theorem lt_of_groups {groups : List ℕ} (h : List.Forall₂ Group parts groups) :
    ∀ n ∈ groups, n < 2 ^ 16 := by
  induction h with
  | nil => exact nofun
  | cons hgroup _ ih => exact List.forall_mem_cons.mpr ⟨hgroup.lt, ih⟩

theorem Groups.lt {groups : List ℕ} (h : Groups parts groups) : ∀ n ∈ groups, n < 2 ^ 16 := by
  cases h with
  | plain hgroups => exact lt_of_groups hgroups
  | @quad parts groups cs octets hgroups hquad =>
    refine List.forall_mem_append.mpr ⟨lt_of_groups hgroups, fun n hn => ?_⟩
    obtain ⟨a, b, c, d, rfl⟩ := List.length_eq_four.mp hquad.length
    have hbound := hquad.bound
    simp only [List.forall_mem_cons] at hbound
    obtain ⟨ha, hb, hc, hd, -⟩ := hbound
    rcases List.mem_cons.mp hn with rfl | hn
    · omega
    · obtain rfl := List.mem_singleton.mp hn
      omega

/-- Eight groups of sixteen bits. -/
theorem SpellsGroups.groups {cs : List Char} {groups : List ℕ} (h : SpellsGroups cs groups) :
    groups.length = 8 ∧ ∀ n ∈ groups, n < 2 ^ 16 := by
  cases h with
  | full hgroups hlength => exact ⟨hlength, hgroups.lt⟩
  | compressed hleft hright hlength =>
    refine ⟨?_, List.forall_mem_append.mpr ⟨lt_of_groups hleft, List.forall_mem_append.mpr ⟨?_,
      hright.lt⟩⟩⟩
    · rw [List.length_append, List.length_append, List.length_replicate]
      omega
    · intro n hn
      rw [List.eq_of_mem_replicate hn]
      decide

/-! ### Colons -/

theorem mem_intercalate_sep {sep : Char} (h : 2 ≤ parts.length) :
    sep ∈ [sep].intercalate parts := by
  obtain ⟨p, q, rest, rfl⟩ : ∃ p q rest, parts = p :: q :: rest := by
    rcases parts with - | ⟨p, - | ⟨q, rest⟩⟩
    · exact absurd h (Nat.not_succ_le_zero _)
    · exact absurd h (Nat.not_succ_le_self _)
    · exact ⟨p, q, rest, rfl⟩
  rw [List.intercalate_cons_cons]
  simp

/-- The text of groups has a colon. -/
theorem SpellsGroups.colon {groups : List ℕ} (h : SpellsGroups cs groups) : ':' ∈ cs := by
  cases h with
  | full hgroups hlength =>
    have hle := hgroups.length_le.2
    exact mem_intercalate_sep (by omega)
  | compressed hleft hright hlength => simp

/-- The text of octets has none. -/
theorem Quad.no_colon (h : Quad cs octets) : ':' ∉ cs :=
  fun hmem => absurd (h.chars ':' hmem) (by decide)

theorem Spells.ne_nil (h : Spells cs address) : cs ≠ [] := by
  cases h with
  | v4 hquad =>
    have hdot : '.' ∈ cs := by
      rw [hquad.text]
      exact mem_intercalate_sep (by rw [List.length_map, hquad.length]; decide)
    exact List.ne_nil_of_mem hdot
  | v6 hgroups => exact List.ne_nil_of_mem hgroups.colon

end IpAddress
