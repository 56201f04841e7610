import MailPortal.Recovery.IpParsing

/-!
# One Text for Each Address

Every spelling of an address becomes one text of that address, so that requests are counted for the
address; what spells no address becomes `unknown`.

Main results:

* `spells_compress` : the text that is made spells the groups it is made of.
* `canonicalCredentialRecoveryIp_eq` : what the text of an address becomes.
* `canonical_ip_normal_form` : the same address, the same text.
-/

namespace MailPortal.Recovery

open Separated IpAddress

variable {c : Char} {cs : List Char} {address : Address} {value : String}
variable {groups octets : List ℕ}

/-! ### The longest run of zeros -/

/-- A run is a run of zeros of the groups. -/
structure IsRun (normalized : List (List Char)) (best : ZeroRun) : Prop where
  one : 1 ≤ best.bestLength
  zeros : ∀ bestStart, best.bestStart = some bestStart →
    (normalized.drop bestStart).take best.bestLength = List.replicate best.bestLength ['0']

/-- The zeros from a place on. -/
theorem take_takeWhile (parts : List (List Char)) :
    parts.take (parts.takeWhile (· = ['0'])).length =
      List.replicate (parts.takeWhile (· = ['0'])).length ['0'] := by
  rw [← List.prefix_iff_eq_take.mp (List.takeWhile_prefix _), List.eq_replicate_iff]
  refine ⟨rfl, fun part hpart => ?_⟩
  have hzero := List.mem_takeWhile_imp hpart
  exact of_decide_eq_true hzero

theorem isRun_longestRun {normalized : List (List Char)} (passes start : ℕ) {best : ZeroRun}
    (h : IsRun normalized best) : IsRun normalized (longestRun normalized passes start best) := by
  induction passes generalizing start best with
  | zero => exact h
  | succ passes ih =>
    unfold longestRun
    simp only [Nat.add_sub_cancel_left]
    split
    · split
      · exact ih _ h
      · refine ih _ ?_
        split
        · rename_i hlonger
          refine ⟨h.one.trans hlonger.le, fun bestStart hstart => ?_⟩
          cases hstart
          exact take_takeWhile _
        · exact h
    · exact h

/-! ### The text of eight groups -/

theorem groups_toHex (h : ∀ n ∈ groups, n < 2 ^ 16) :
    List.Forall₂ Group (groups.map toHex) groups := by
  rw [List.forall₂_map_left_iff, List.forall₂_same]
  exact fun n hn => group_toHex (h n hn)

theorem eq_zero_of_toHex {n : ℕ} (h : toHex n = ['0']) : n = 0 := by
  have hread := hexFrom_toDigits n
  rw [toHex] at h
  rw [h] at hread
  exact (Option.some.inj hread).symm

/-- **The text that is made** of eight groups spells them. -/
theorem spells_compress (hlength : groups.length = 8) (hbound : ∀ n ∈ groups, n < 2 ^ 16) :
    SpellsGroups (compress (groups.map toHex)) groups := by
  have hgroups := groups_toHex hbound
  have hrun : IsRun (groups.map toHex) (longestRun (groups.map toHex) (groups.map toHex).length 0
      ⟨none, 1⟩) := isRun_longestRun _ _ ⟨le_rfl, nofun⟩
  unfold compress
  generalize longestRun (groups.map toHex) (groups.map toHex).length 0 ⟨none, 1⟩ = best at hrun
  obtain ⟨bestStart, bestLength⟩ := best
  cases bestStart with
  | none => exact .full (.plain hgroups) hlength
  | some bestStart =>
    have hone : 1 ≤ bestLength := hrun.one
    have hzeros := hrun.zeros bestStart rfl
    simp only at hzeros
    have hwithin : bestStart + bestLength ≤ 8 := by
      have htake := congrArg List.length hzeros
      rw [List.length_take, List.length_drop, List.length_map, hlength, List.length_replicate]
        at htake
      omega
    have hmiddle : (groups.drop bestStart).take bestLength = List.replicate bestLength 0 := by
      rw [List.eq_replicate_iff]
      refine ⟨by rw [List.length_take, List.length_drop, hlength]; omega, fun n hn => ?_⟩
      rw [← List.map_drop, ← List.map_take] at hzeros
      exact eq_zero_of_toHex (List.eq_of_mem_replicate (hzeros ▸ List.mem_map_of_mem hn))
    have hsplit : groups = groups.take bestStart ++
        (List.replicate bestLength 0 ++ groups.drop (bestStart + bestLength)) := by
      rw [← hmiddle, ← List.drop_drop, List.take_append_drop, List.take_append_drop]
    have hbefore : (groups.take bestStart).length = bestStart := by
      rw [List.length_take, hlength]
      omega
    have hafter : (groups.drop (bestStart + bestLength)).length = 8 - (bestStart + bestLength) := by
      rw [List.length_drop, hlength]
    have hspells := SpellsGroups.compressed
      (groups_toHex fun n hn => hbound n (List.mem_of_mem_take hn) :
        List.Forall₂ Group ((groups.take bestStart).map toHex) (groups.take bestStart))
      (.plain (groups_toHex fun n hn => hbound n (List.mem_of_mem_drop hn)) :
        Groups ((groups.drop (bestStart + bestLength)).map toHex)
          (groups.drop (bestStart + bestLength)))
      (by omega)
    have hrest : 8 - bestStart - (8 - (bestStart + bestLength)) = bestLength := by omega
    rw [hbefore, hafter, hrest, ← hsplit, List.map_take, List.map_drop] at hspells
    exact hspells

/-! ### Characters -/

theorem toNat_toLower (c : Char) :
    c.toLower.toNat = if 65 ≤ c.toNat ∧ c.toNat ≤ 90 then c.toNat + 32 else c.toNat := by
  have hupper : (c.val ≥ 'A'.val ∧ c.val ≤ 'Z'.val) ↔ 65 ≤ c.toNat ∧ c.toNat ≤ 90 := by
    rw [ge_iff_le, UInt32.le_iff_toNat_le, UInt32.le_iff_toNat_le]
    rfl
  unfold Char.toLower
  split
  · rename_i h
    rw [if_pos (hupper.mp h)]
    have hle : c.val.toNat ≤ 90 := (hupper.mp h).2
    have hshift : ('a'.val - 'A'.val).toNat = 32 := rfl
    calc (c.val + ('a'.val - 'A'.val)).toNat = (c.val.toNat + 32) % 2 ^ 32 := by
          rw [UInt32.toNat_add, hshift]
      _ = c.toNat + 32 := Nat.mod_eq_of_lt (by omega)
  · rename_i h
    rw [if_neg (hupper.not.mp h)]

theorem toLower_eq_self (h : c.toNat < 65 ∨ 90 < c.toNat) : c.toLower = c := by
  apply Char.toNat_inj.mp
  rw [toNat_toLower, if_neg (by omega)]

theorem hexValue_isSome_iff (c : Char) : (hexValue c).isSome = true ↔
    (48 ≤ c.toNat ∧ c.toNat ≤ 57) ∨ (97 ≤ c.toNat ∧ c.toNat ≤ 102) := by
  rw [← isLowerHex_iff, isLowerHex, isDecimal]
  simp only [Bool.or_eq_true, Bool.and_eq_true, decide_eq_true_eq, Char.le_def,
    UInt32.le_iff_toNat_le]
  rfl

/-- The characters of an address, in lower case. -/
theorem toNat_of_address (h : IpAddress.IsAddressChar c) :
    c.toNat = 46 ∨ (48 ≤ c.toNat ∧ c.toNat ≤ 58) ∨ (97 ≤ c.toNat ∧ c.toNat ≤ 102) := by
  rcases h with hhex | rfl | rfl
  · rcases (hexValue_isSome_iff c).mp hhex with hrange | hrange
    · exact Or.inr (Or.inl ⟨hrange.1, hrange.2.trans (by decide)⟩)
    · exact Or.inr (Or.inr hrange)
  · exact Or.inr (Or.inl (by decide))
  · exact Or.inl rfl

theorem toLower_address (h : IpAddress.IsAddressChar c) : c.toLower = c :=
  toLower_eq_self (by have hrange := toNat_of_address h; omega)

/-- A character that is one of an address in lower case. -/
theorem isAddressChar_of_toLower (h : IpAddress.IsAddressChar c.toLower) :
    isAddressChar c = true := by
  by_cases hupper : 65 ≤ c.toNat ∧ c.toNat ≤ 90
  · have hrange := toNat_of_address h
    rw [toNat_toLower, if_pos hupper] at hrange
    have hletter : 'A' ≤ c ∧ c ≤ 'F' := by
      simp only [Char.le_def, UInt32.le_iff_toNat_le]
      exact ⟨hupper.1, show c.toNat ≤ 70 by omega⟩
    simp [isAddressChar, hletter]
  · rw [toLower_eq_self (by omega)] at h
    rw [isAddressChar]
    rcases h with hhex | rfl | rfl
    · rw [(isLowerHex_iff c).mpr hhex]
      rfl
    · rfl
    · rfl

theorem toNat_of_isAddressChar (h : isAddressChar c = true) :
    c.toNat = 46 ∨ (48 ≤ c.toNat ∧ c.toNat ≤ 102) := by
  simp only [isAddressChar, Bool.or_eq_true, Bool.and_eq_true, decide_eq_true_eq, Char.le_def,
    UInt32.le_iff_toNat_le] at h
  rcases h with ((hhex | ⟨hlow, hhigh⟩) | rfl) | rfl
  · have hrange := (hexValue_isSome_iff c).mp ((isLowerHex_iff c).mp hhex)
    omega
  · have hlow' : 65 ≤ c.toNat := hlow
    have hhigh' : c.toNat ≤ 70 := hhigh
    omega
  · exact Or.inr (by decide)
  · exact Or.inl rfl

theorem isTrimmed_of_isAddressChar (h : isAddressChar c = true) : isTrimmed c = false := by
  have hrange := toNat_of_isAddressChar h
  rw [isTrimmed, decide_eq_false_iff_not]
  intro hmem
  simp only [List.mem_cons, List.not_mem_nil, or_false] at hmem
  omega

theorem codeUnits_of_isAddressChar {s : String} (h : ∀ c ∈ s.toList, isAddressChar c = true) :
    codeUnits s = s.toList.length := by
  have hunits : ∀ cs : List Char, (∀ c ∈ cs, isAddressChar c = true) →
      (cs.flatMap utf16Units).length = cs.length := by
    intro cs hcs
    induction cs with
    | nil => rfl
    | cons c cs ih =>
      obtain ⟨hc, hrest⟩ := List.forall_mem_cons.mp hcs
      have hrange := toNat_of_isAddressChar hc
      have hone : (utf16Units c).length = 1 := by
        unfold utf16Units
        rw [if_pos (by omega)]
        rfl
      rw [List.flatMap_cons, List.length_append, hone, ih hrest, List.length_cons, Nat.add_comm]
  exact hunits s.toList h

/-! ### The text of an address -/

/-- A string is a spelling of an address, in any case, with white space around it. -/
def Denotes (s : String) (address : Address) : Prop :=
  ∃ leading core trailing, s.toList = leading ++ core ++ trailing ∧
    (∀ c ∈ leading, isTrimmed c = true) ∧ (∀ c ∈ trailing, isTrimmed c = true) ∧
    Spells (core.map Char.toLower) address

/-- The one text of an address. -/
def textOf : Address → List Char
  | .v4 octets => ['.'].intercalate (octets.map (Nat.toDigits 10))
  | .v6 groups => compress (groups.map toHex)

theorem spells_textOf (h : Spells cs address) : Spells (textOf address) address := by
  cases h with
  | v4 hquad =>
    refine .v4 ⟨hquad.length, hquad.bound, rfl⟩
  | v6 hgroups => exact .v6 (spells_compress hgroups.groups.1 hgroups.groups.2)

theorem quad_inj {octets' : List ℕ} (h : Quad cs octets) (h' : Quad cs octets') :
    octets = octets' := by
  have hmap := (splitOn_quad h).symm.trans (splitOn_quad h')
  refine List.map_injective_iff.mpr (fun m n hmn => ?_) hmap
  rw [← decimal_toDigits m, hmn, decimal_toDigits]

/-- A text spells one address. -/
theorem spells_inj {address' : Address} (h : Spells cs address) (h' : Spells cs address') :
    address = address' := by
  cases h with
  | v4 hquad =>
    cases h' with
    | v4 hquad' => rw [quad_inj hquad hquad']
    | v6 hgroups' => exact absurd hgroups'.colon hquad.no_colon
  | v6 hgroups =>
    cases h' with
    | v4 hquad' => exact absurd hgroups.colon hquad'.no_colon
    | v6 hgroups' =>
      have hread := readGroups_eq_some.mpr hgroups
      rw [readGroups_eq_some.mpr hgroups'] at hread
      rw [Option.some.inj hread]

theorem map_toLower_eq_self (h : ∀ c ∈ cs, c.toLower = c) : cs.map Char.toLower = cs := by
  rw [List.map_congr_left h, List.map_id']

/-- Octets have no letters, so that their case is of no account. -/
theorem quad_toLower (h : Quad (cs.map Char.toLower) octets) : cs.map Char.toLower = cs := by
  refine map_toLower_eq_self fun c hc => ?_
  have hchar := h.chars _ (List.mem_map_of_mem hc)
  have hlt : c.toLower.toNat ≤ 57 := by
    rcases hchar with hdigit | hdot
    · exact (Char.isDigit_iff_toNat.mp hdigit).2
    · rw [hdot]
      decide
  rw [toNat_toLower] at hlt
  refine toLower_eq_self ?_
  split at hlt <;> omega

theorem canonicalIpv6_eq (candidate : List Char) : canonicalIpv6 candidate =
    (readGroups (candidate.map Char.toLower)).map fun groups => compress (groups.map toHex) := by
  rw [canonicalIpv6, readGroups, Option.map_bind]
  refine congrArg _ (funext fun ipv6 => ?_)
  rw [Function.comp_apply, Option.map_map]
  refine congrArg (Option.map · (hextetsOf ipv6)) (funext fun hextets => ?_)
  rw [Function.comp_apply, List.map_map]
  rfl

/-- What is made of a text without white space around it. -/
def canonicalOf (cs : List Char) : Option (List Char) :=
  if ':' ∉ cs then canonicalIpv4 cs else canonicalIpv6 cs

theorem canonicalOf_eq_some {out : List Char} :
    canonicalOf cs = some out ↔
      ∃ address, Spells (cs.map Char.toLower) address ∧ out = textOf address := by
  unfold canonicalOf
  have hcolon : ':' ∈ cs → ':' ∈ cs.map Char.toLower := fun hmem => by
    have hmap := List.mem_map_of_mem (f := Char.toLower) hmem
    rwa [show (':' : Char).toLower = ':' from rfl] at hmap
  split
  · rename_i hno
    rw [canonicalIpv4_eq_some]
    constructor
    · rintro ⟨rfl, octets, hquad⟩
      have hlower : out.map Char.toLower = out := map_toLower_eq_self fun c hc =>
        toLower_address ((hquad.chars c hc).imp hexValue_of_isDigit Or.inr)
      exact ⟨.v4 octets, by rw [hlower]; exact .v4 hquad, hquad.text⟩
    · rintro ⟨address, hspells, rfl⟩
      cases hspells with
      | v4 hquad =>
        have hlower := quad_toLower hquad
        rw [hlower] at hquad
        exact ⟨hquad.text.symm, _, hquad⟩
      | v6 hgroups =>
        obtain ⟨c, hc, heq⟩ := List.mem_map.mp hgroups.colon
        have hself : c = ':' := by
          have hnat := congrArg Char.toNat heq
          rw [toNat_toLower] at hnat
          have h58 : ':'.toNat = 58 := rfl
          rw [← toLower_eq_self (c := c) (by split at hnat <;> omega), heq]
        exact absurd (hself ▸ hc) hno
  · rename_i hmem
    rw [canonicalIpv6_eq, Option.map_eq_some_iff]
    constructor
    · rintro ⟨groups, hread, rfl⟩
      exact ⟨.v6 groups, .v6 (readGroups_eq_some.mp hread), rfl⟩
    · rintro ⟨address, hspells, rfl⟩
      cases hspells with
      | v4 hquad => exact absurd (hcolon (not_not.mp hmem)) hquad.no_colon
      | v6 hgroups => exact ⟨_, readGroups_eq_some.mpr hgroups, rfl⟩

/-! ### What becomes of a string -/

theorem isAddressChar_of_spells {core : List Char} (h : Spells (core.map Char.toLower) address) :
    ∀ c ∈ core, isAddressChar c = true :=
  fun c hc => isAddressChar_of_toLower (h.chars c.toLower (List.mem_map_of_mem hc))

/-- The checks at the start let every spelling pass. -/
theorem canonicalCredentialRecoveryIp_eq (h : Denotes value address) :
    canonicalCredentialRecoveryIp value = String.ofList (textOf address) := by
  obtain ⟨leading, core, trailing, hvalue, hleading, htrailing, hspells⟩ := h
  have hchars := isAddressChar_of_spells hspells
  have hne : core ≠ [] := fun hnil => hspells.ne_nil (by rw [hnil]; rfl)
  have htrim : trim value = String.ofList core :=
    trim_of_surrounded hvalue hleading htrailing hne
      fun c hc => isTrimmed_of_isAddressChar (hchars c hc)
  have hlist : (trim value).toList = core := by rw [htrim, String.toList_ofList]
  have hunits : codeUnits (trim value) ≤ 45 := by
    rw [codeUnits_of_isAddressChar (by rwa [hlist]), hlist, ← List.length_map Char.toLower]
    exact hspells.length_le
  have hcanonical : canonicalOf core = some (textOf address) :=
    canonicalOf_eq_some.mpr ⟨address, hspells, rfl⟩
  unfold canonicalCredentialRecoveryIp
  simp only
  rw [if_neg, hlist]
  · rw [canonicalOf] at hcanonical
    rw [hcanonical]
    rfl
  · simp only [not_or, Bool.not_eq_true', Bool.not_eq_false]
    refine ⟨fun hempty => hne ?_, Nat.not_lt.mpr hunits, ?_⟩
    · rw [← hlist, hempty]
      rfl
    · rw [hlist]
      exact List.all_eq_true.mpr hchars

theorem canonicalCredentialRecoveryIp_unknown (h : ¬∃ address, Denotes value address) :
    canonicalCredentialRecoveryIp value = "unknown" := by
  obtain ⟨leading, trailing, hvalue, hleading, htrailing⟩ := exists_trim value
  have hnone : canonicalOf (trim value).toList = none := by
    rw [Option.eq_none_iff_forall_ne_some]
    intro out hout
    obtain ⟨address, hspells, -⟩ := canonicalOf_eq_some.mp hout
    exact h ⟨address, leading, _, trailing, hvalue, hleading, htrailing, hspells⟩
  unfold canonicalCredentialRecoveryIp
  simp only
  split
  · rfl
  · rw [canonicalOf] at hnone
    rw [hnone]
    rfl

/-- The text of an address denotes it. -/
theorem denotes_textOf (h : Denotes value address) :
    Denotes (String.ofList (textOf address)) address := by
  obtain ⟨leading, core, trailing, hvalue, hleading, htrailing, hspells⟩ := h
  have htext := spells_textOf hspells
  refine ⟨[], textOf address, [], ?_, by simp, by simp, ?_⟩
  · rw [String.toList_ofList, List.nil_append, List.append_nil]
  · rwa [map_toLower_eq_self fun c hc => toLower_address (htext.chars c hc)]

theorem not_denotes_unknown : ¬∃ address, Denotes "unknown" address := by
  rintro ⟨address, leading, core, trailing, hvalue, hleading, htrailing, hspells⟩
  have hall : ∀ c ∈ "unknown".toList, isTrimmed c = true ∨ isAddressChar c = true := by
    rw [hvalue, List.forall_mem_append, List.forall_mem_append]
    exact ⟨⟨fun c hc => Or.inl (hleading c hc),
      fun c hc => Or.inr (isAddressChar_of_spells hspells c hc)⟩,
      fun c hc => Or.inl (htrailing c hc)⟩
  exact absurd (hall 'u' (by decide)) (by decide)

/-- **One text for each address**: a spelling never becomes `unknown`, two spellings become the same
text just if they denote the same address, every other string becomes `unknown`, and what was made
once is not changed again. -/
theorem canonical_ip_normal_form :
    (∀ value address, Denotes value address →
      canonicalCredentialRecoveryIp value ≠ "unknown") ∧
    (∀ value value' address address', Denotes value address → Denotes value' address' →
      (canonicalCredentialRecoveryIp value = canonicalCredentialRecoveryIp value' ↔
        address = address')) ∧
    (∀ value, (¬∃ address, Denotes value address) →
      canonicalCredentialRecoveryIp value = "unknown") ∧
    ∀ value, canonicalCredentialRecoveryIp (canonicalCredentialRecoveryIp value) =
      canonicalCredentialRecoveryIp value := by
  refine ⟨fun value address h heq => ?_, fun value value' address address' h h' => ?_,
    fun value h => canonicalCredentialRecoveryIp_unknown h, fun value => ?_⟩
  · rw [canonicalCredentialRecoveryIp_eq h] at heq
    exact not_denotes_unknown ⟨address, heq ▸ denotes_textOf h⟩
  · rw [canonicalCredentialRecoveryIp_eq h, canonicalCredentialRecoveryIp_eq h']
    refine ⟨fun heq => ?_, fun heq => by rw [heq]⟩
    obtain ⟨_, _, _, -, -, -, hspells⟩ := h
    obtain ⟨_, _, _, -, -, -, hspells'⟩ := h'
    have htext := spells_textOf hspells
    rw [String.ofList_injective heq] at htext
    exact spells_inj htext (spells_textOf hspells')
  · by_cases hdenotes : ∃ address, Denotes value address
    · obtain ⟨address, h⟩ := hdenotes
      rw [canonicalCredentialRecoveryIp_eq h]
      exact canonicalCredentialRecoveryIp_eq (denotes_textOf h)
    · rw [canonicalCredentialRecoveryIp_unknown hdenotes]
      exact canonicalCredentialRecoveryIp_unknown not_denotes_unknown

theorem canonical_ip_normal_form_sample :
    canonicalCredentialRecoveryIp " 2001:DB8::1" = canonicalCredentialRecoveryIp "2001:db8:0::1" :=
  (canonical_ip_normal_form.2.1 " 2001:DB8::1" "2001:db8:0::1"
    (.v6 [0x2001, 0xdb8, 0, 0, 0, 0, 0, 1])
    (.v6 [0x2001, 0xdb8, 0, 0, 0, 0, 0, 1])
    ⟨[' '], "2001:DB8::1".toList, [], by decide, List.all_eq_true.mp rfl, List.all_eq_true.mp rfl,
      .v6 (readGroups_eq_some.mp (by decide))⟩
    ⟨[], "2001:db8:0::1".toList, [], by decide, List.all_eq_true.mp rfl, List.all_eq_true.mp rfl,
      .v6 (readGroups_eq_some.mp (by decide))⟩).mpr rfl

end MailPortal.Recovery
