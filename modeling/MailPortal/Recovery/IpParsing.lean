import MailPortal.Recovery.CanonicalIp

/-!
# Addresses Read

What the two parsers accept are the texts of the grammar, and the groups that they read are those
that the text spells.

Main results:

* `canonicalIpv4_eq_some` : four octets are given back as they are.
* `readGroups_eq_some` : the groups that are read are those that the text spells.
-/

namespace MailPortal.Recovery

open Separated IpAddress

variable {c : Char} {cs part front last : List Char} {parts : List (List Char)}
  {octets groups : List ℕ}

/-! ### Octets -/

theorem exists_digitChar (h : isDecimal c = true) : ∃ d < 10, c = Nat.digitChar d := by
  obtain ⟨hlow, hhigh⟩ := Char.isDigit_iff_toNat.mp h
  have hzero : '0'.toNat = 48 := rfl
  have hnine : '9'.toNat = 57 := rfl
  rw [hzero] at hlow
  rw [hnine] at hhigh
  refine ⟨c.toNat - 48, by omega, Char.toNat_inj.mp ?_⟩
  rw [Nat.toNat_digitChar_of_lt_ten (by omega)]
  omega

theorem decimal_append (cs : List Char) {d : ℕ} (h : d < 10) :
    decimal (cs ++ [d.digitChar]) = 10 * decimal cs + d := by
  rw [decimal, decimal, Nat.ofDigitChars_append, Nat.ofDigitChars_cons_digitChar_of_lt_ten h,
    Nat.ofDigitChars_nil]

/-- Digits without leading zeros are those of their number. -/
theorem toDigits_decimal (hc : isDecimal c = true) (hzero : c ≠ '0')
    (hcs : cs.all isDecimal = true) :
    0 < decimal (c :: cs) ∧ Nat.toDigits 10 (decimal (c :: cs)) = c :: cs := by
  induction cs using List.reverseRecOn with
  | nil =>
    obtain ⟨d, hd, rfl⟩ := exists_digitChar hc
    have hdecimal : decimal [d.digitChar] = d := by
      rw [← List.nil_append [_], decimal_append [] hd]
      exact Nat.zero_add d
    rw [hdecimal]
    refine ⟨Nat.pos_of_ne_zero fun h => hzero (Nat.digitChar_eq_zero.mpr h), ?_⟩
    rw [Nat.toDigits_of_lt_base hd]
  | append_singleton cs e ih =>
    rw [List.all_append, Bool.and_eq_true, List.all_cons, List.all_nil, Bool.and_true] at hcs
    obtain ⟨hpos, htext⟩ := ih hcs.1
    obtain ⟨d, hd, rfl⟩ := exists_digitChar hcs.2
    rw [← List.cons_append, decimal_append _ hd]
    refine ⟨by omega, ?_⟩
    rw [← Nat.toDigits_append_toDigits (by decide) hpos hd, htext, Nat.toDigits_of_lt_base hd]

theorem decimal_toDigits (n : ℕ) : decimal (Nat.toDigits 10 n) = n := Nat.ofDigitChars_ten_toDigits

/-- A number that is not zero has no leading zero. -/
theorem toDigits_head {n : ℕ} (h : 0 < n) :
    ∃ d cs, 0 < d ∧ d < 10 ∧ Nat.toDigits 10 n = Nat.digitChar d :: cs := by
  induction n using Nat.strongRecOn with
  | ind n ih =>
    rw [Nat.toDigits_eq_if (by decide)]
    split
    · rename_i hlt
      exact ⟨n, [], h, hlt, rfl⟩
    · rename_i hge
      obtain ⟨d, cs, hpos, hlt, htext⟩ := ih (n / 10) (by omega) (by omega)
      exact ⟨d, cs ++ [_], hpos, hlt, by rw [htext, List.cons_append]⟩

theorem isOctetText_toDigits {octet : ℕ} (h : octet < 256) :
    isOctetText (Nat.toDigits 10 octet) = true := by
  rcases Nat.eq_zero_or_pos octet with rfl | hpos
  · rfl
  · obtain ⟨d, cs, hd, hlt, htext⟩ := toDigits_head hpos
    have hlength : (Nat.toDigits 10 octet).length ≤ 3 :=
      (Nat.length_toDigits_le_iff (by decide) (by decide)).mpr (by omega)
    have hall : ∀ c ∈ Nat.toDigits 10 octet, isDecimal c = true := fun c => isDigit_of_mem
    have hrange : ∀ d < 10, 0 < d → ('1' ≤ d.digitChar ∧ d.digitChar ≤ '9') := by decide
    rw [htext] at hlength hall ⊢
    rw [isOctetText, Bool.or_eq_true]
    refine Or.inr ?_
    simp only [Bool.and_eq_true, decide_eq_true_eq]
    exact ⟨⟨hrange d hlt hd, Nat.le_of_succ_le_succ hlength⟩,
      List.all_eq_true.mpr fun c hc => hall c (List.mem_cons_of_mem _ hc)⟩

/-- The texts of octets. -/
theorem isOctet_iff :
    (isOctetText part = true ∧ decimal part ≤ 255) ↔
      ∃ octet < 256, part = Nat.toDigits 10 octet := by
  constructor
  · rintro ⟨htext, hle⟩
    cases part with
    | nil => exact absurd htext nofun
    | cons c cs =>
      rw [isOctetText, Bool.or_eq_true, Bool.and_eq_true, decide_eq_true_eq] at htext
      rcases htext with ⟨rfl, hempty⟩ | hlong
      · obtain rfl := List.isEmpty_iff.mp hempty
        exact ⟨0, by decide, rfl⟩
      · simp only [Bool.and_eq_true, decide_eq_true_eq] at hlong
        obtain ⟨⟨⟨hone, hnine⟩, -⟩, hall⟩ := hlong
        have hzero : c ≠ '0' := fun h => absurd (h ▸ hone) (by decide)
        have hdigit : isDecimal c = true := by
          rw [isDecimal, Bool.and_eq_true, decide_eq_true_eq, decide_eq_true_eq]
          exact ⟨Char.le_trans (show '0' ≤ '1' by decide) hone, hnine⟩
        exact ⟨_, Nat.lt_succ_of_le hle, (toDigits_decimal hdigit hzero hall).2.symm⟩
  · rintro ⟨octet, hlt, rfl⟩
    rw [decimal_toDigits]
    exact ⟨isOctetText_toDigits hlt, Nat.le_of_lt_succ hlt⟩

/-- The digits of octets have no dots. -/
theorem not_mem_toDigits (h : c.isDigit = false) (n : ℕ) : c ∉ Nat.toDigits 10 n :=
  fun hmem => absurd (isDigit_of_mem hmem) (by rw [h]; exact nofun)

theorem exists_octets (h : ∀ part ∈ parts, ∃ octet < 256, part = Nat.toDigits 10 octet) :
    ∃ octets : List ℕ, (∀ octet ∈ octets, octet < 256) ∧ parts = octets.map (Nat.toDigits 10) := by
  induction parts with
  | nil => exact ⟨[], nofun, rfl⟩
  | cons part parts ih =>
    obtain ⟨⟨octet, hlt, rfl⟩, hparts⟩ := List.forall_mem_cons.mp h
    obtain ⟨octets, hbound, rfl⟩ := ih hparts
    exact ⟨octet :: octets, List.forall_mem_cons.mpr ⟨hlt, hbound⟩, rfl⟩

theorem splitOn_quad (h : Quad cs octets) : cs.splitOn '.' = octets.map (Nat.toDigits 10) := by
  rw [h.text]
  refine List.splitOn_intercalate '.' ?_ ?_
  · intro part hpart
    obtain ⟨octet, -, rfl⟩ := List.mem_map.mp hpart
    exact not_mem_toDigits rfl octet
  · intro hnil
    have hlength := h.length
    rw [List.map_eq_nil_iff.mp hnil] at hlength
    exact absurd hlength (by decide)

theorem canonicalIpv4_eq (input : List Char) : canonicalIpv4 input =
    if (input.splitOn '.').length ≠ 4 ∨
        (input.splitOn '.').any fun part => !isOctetText part || decimal part > 255 then none
    else some input := by
  simp only [canonicalIpv4, List.intercalate_splitOn]

/-- **Four octets** are given back as they are, and nothing else is. -/
theorem canonicalIpv4_eq_some {input out : List Char} :
    canonicalIpv4 input = some out ↔ out = input ∧ ∃ octets, Quad input octets := by
  have hparts : (∀ part ∈ input.splitOn '.', ∃ octet < 256, part = Nat.toDigits 10 octet) ↔
      ¬(input.splitOn '.').any (fun part => !isOctetText part || decimal part > 255) = true := by
    rw [Bool.not_eq_true, List.any_eq_false]
    refine forall₂_congr fun part _ => ?_
    rw [← isOctet_iff]
    simp
  constructor
  · intro h
    rw [canonicalIpv4_eq] at h
    split at h
    · exact absurd h nofun
    · rename_i hguard
      rw [not_or, not_not, ← hparts] at hguard
      obtain ⟨hlength, hoctets⟩ := hguard
      obtain ⟨octets, hbound, hmap⟩ := exists_octets hoctets
      refine ⟨(Option.some.inj h).symm, octets, ?_, hbound, ?_⟩
      · rw [hmap, List.length_map] at hlength
        exact hlength
      · rw [← hmap, List.intercalate_splitOn]
  · rintro ⟨rfl, octets, hquad⟩
    rw [canonicalIpv4_eq, if_neg]
    rw [not_or, not_not, ← hparts, splitOn_quad hquad, List.length_map]
    refine ⟨hquad.length, fun part hpart => ?_⟩
    obtain ⟨octet, hmem, rfl⟩ := List.mem_map.mp hpart
    exact ⟨octet, hquad.bound octet hmem, rfl⟩

/-! ### Groups -/

theorem isLowerHex_iff (c : Char) : isLowerHex c = true ↔ (hexValue c).isSome = true := by
  rw [isLowerHex, isDecimal, hexValue, Bool.or_eq_true, Bool.and_eq_true, Bool.and_eq_true,
    decide_eq_true_eq, decide_eq_true_eq, decide_eq_true_eq, decide_eq_true_eq]
  split
  · exact ⟨fun _ => rfl, fun _ => Or.inl ‹_›⟩
  · split
    · exact ⟨fun _ => rfl, fun _ => Or.inr ‹_›⟩
    · exact ⟨fun h => absurd h (not_or.mpr ⟨‹_›, ‹_›⟩), fun h => by cases h⟩

theorem isHextet_iff : isHextet part = true ↔ Group part (parseHex part) := by
  have hread : part.all isLowerHex = true ↔ hexFrom 0 part = some (parseHex part) := by
    rw [List.all_eq_true, forall₂_congr fun c _ => isLowerHex_iff c, ← hexFrom_isSome (n := 0),
      parseHex]
    cases hexFrom 0 part with
    | none => exact ⟨nofun, nofun⟩
    | some n => exact ⟨fun _ => rfl, fun _ => rfl⟩
  rw [isHextet, Bool.and_eq_true, Bool.and_eq_true, decide_eq_true_eq, decide_eq_true_eq, hread,
    and_assoc]
  rfl

theorem parseHex_of_group {n : ℕ} (h : Group part n) : parseHex part = n := by
  rw [parseHex, h.2.2]
  rfl

/-- Parts that are hexadecimal are groups, and the groups are read from them. -/
theorem groups_iff :
    List.Forall₂ Group parts groups ↔
      (∀ part ∈ parts, isHextet part = true) ∧ parts.map parseHex = groups := by
  constructor
  · intro h
    induction h with
    | nil => exact ⟨nofun, rfl⟩
    | cons hgroup _ ih =>
      have hread := parseHex_of_group hgroup
      refine ⟨List.forall_mem_cons.mpr ⟨isHextet_iff.mpr (by rwa [hread]), ih.1⟩, ?_⟩
      rw [List.map_cons, hread, ih.2]
  · rintro ⟨hall, rfl⟩
    rw [List.forall₂_map_right_iff, List.forall₂_same]
    exact fun part hpart => isHextet_iff.mp (hall part hpart)

theorem group_no_colon (h : List.Forall₂ Group parts groups) :
    (∀ part ∈ parts, part ≠ []) ∧ ∀ part ∈ parts, ':' ∉ part := by
  refine ⟨fun part hpart => ?_, fun part hpart hmem => ?_⟩
  · obtain ⟨n, hgroup⟩ := exists_group h part hpart
    exact hgroup.ne_nil
  · obtain ⟨n, hgroup⟩ := exists_group h part hpart
    exact absurd (hgroup.chars ':' hmem) (by decide)

theorem joined_splitRaw (raw : List Char) : joined (splitRaw raw) = raw := by
  unfold splitRaw
  split
  · rename_i hnil
    rw [hnil]
    rfl
  · exact List.intercalate_splitOn ':'

/-- The parts are found again. -/
theorem splitRaw_joined (hne : ∀ part ∈ parts, part ≠ []) (hcolon : ∀ part ∈ parts, ':' ∉ part) :
    splitRaw (joined parts) = parts := by
  cases parts with
  | nil => rfl
  | cons p parts =>
    have hjoined : joined (p :: parts) ≠ [] := by
      obtain ⟨c, cs, rfl⟩ := List.exists_cons_of_ne_nil (hne p List.mem_cons_self)
      rw [joined, List.intercalate_cons_cons_left]
      exact List.cons_ne_nil _ _
    rw [splitRaw, if_neg hjoined]
    exact List.splitOn_intercalate ':' hcolon (List.cons_ne_nil _ _)

/-! ### Texts without octets -/

/-- The texts of eight groups, without octets at the end. -/
inductive Plain : List Char → List ℕ → Prop
  | full {parts : List (List Char)} {groups : List ℕ} (h : List.Forall₂ Group parts groups)
      (hlength : groups.length = 8) : Plain (joined parts) groups
  | compressed {left right : List (List Char)} {before after : List ℕ}
      (hleft : List.Forall₂ Group left before) (hright : List.Forall₂ Group right after)
      (hlength : before.length + after.length ≤ 7) :
      Plain (joined left ++ ':' :: ':' :: joined right)
        (before ++ (List.replicate (8 - before.length - after.length) 0 ++ after))

/-- The checks of the parts that are read. -/
theorem checked_iff {wrong : Prop} :
    ¬((parts.any fun part => !isHextet part) = true ∨ wrong) ↔
      (∀ part ∈ parts, isHextet part = true) ∧ ¬wrong := by
  simp [not_or]

theorem hextetsOf_one (h : countDouble ':' cs = 0) :
    hextetsOf cs = some parts ↔
      splitRaw cs = parts ∧ (∀ part ∈ parts, isHextet part = true) ∧ parts.length = 8 := by
  have hraw : splitRaw [] = [] := rfl
  unfold hextetsOf
  simp only [h, splitDouble_of_count h, List.getD_cons_zero, List.getD_cons_succ, List.getD_nil,
    hraw, List.append_nil, ne_eq, not_true_eq_false, decide_false, Bool.false_eq_true, if_false,
    gt_iff_lt, Nat.not_lt_zero]
  split
  · rename_i hwrong
    refine ⟨fun heq => ?_, ?_⟩
    · cases heq
    · rintro ⟨rfl, hall, hlength⟩
      exact absurd hwrong (checked_iff.mpr ⟨hall, not_not.mpr hlength⟩)
  · rename_i hright
    obtain ⟨hall, hlength⟩ := checked_iff.mp hright
    refine ⟨fun heq => ?_, fun heq => congrArg some heq.1⟩
    cases heq
    exact ⟨rfl, hall, not_not.mp hlength⟩

theorem hextetsOf_two {l r : List Char} (h : splitDouble ':' cs = [l, r]) :
    hextetsOf cs = some parts ↔
      (∀ part ∈ splitRaw l ++ splitRaw r, isHextet part = true) ∧
        (splitRaw l).length + (splitRaw r).length ≤ 7 ∧
        splitRaw l ++ (List.replicate (8 - (splitRaw l).length - (splitRaw r).length) ['0'] ++
          splitRaw r) = parts := by
  have hcount : countDouble ':' cs = 1 := by
    have hlength := length_splitDouble ':' cs
    rw [h] at hlength
    exact (Nat.succ.inj hlength).symm
  unfold hextetsOf
  simp only [h, hcount, List.getD_cons_zero, List.getD_cons_succ, ne_eq, one_ne_zero,
    not_false_eq_true, decide_true, if_true, gt_iff_lt, Nat.lt_irrefl, if_false]
  split
  · rename_i hwrong
    refine ⟨fun heq => ?_, ?_⟩
    · cases heq
    · rintro ⟨hall, hlength, -⟩
      exact absurd hwrong (checked_iff.mpr ⟨hall, Nat.not_le.mpr (Nat.lt_succ_of_le hlength)⟩)
  · rename_i hright
    obtain ⟨hall, hlength⟩ := checked_iff.mp hright
    refine ⟨fun heq => ⟨hall, Nat.le_of_lt_succ (Nat.not_le.mp hlength), Option.some.inj heq⟩, ?_⟩
    exact fun heq => congrArg some heq.2.2

theorem hextetsOf_more (h : countDouble ':' cs > 1) : hextetsOf cs = none := by
  unfold hextetsOf
  rw [if_pos h]

/-- The zeros that a double colon stands for are read as such. -/
theorem map_parseHex_zeros {left right : List (List Char)} {before after : List ℕ} (n : ℕ)
    (hleft : left.map parseHex = before) (hright : right.map parseHex = after) :
    (left ++ (List.replicate n ['0'] ++ right)).map parseHex =
      before ++ (List.replicate n 0 ++ after) := by
  have hzero : parseHex ['0'] = 0 := rfl
  rw [List.map_append, List.map_append, List.map_replicate, hleft, hright, hzero]

/-- **The groups** that are read are those of the text, when no octets are in it. -/
theorem hextetsOf_plain : (hextetsOf cs).map (·.map parseHex) = some groups ↔ Plain cs groups := by
  rw [Option.map_eq_some_iff]
  constructor
  · rintro ⟨parts, hparts, rfl⟩
    rcases Nat.lt_trichotomy (countDouble ':' cs) 1 with hcount | hcount | hcount
    · obtain ⟨rfl, hall, hlength⟩ := (hextetsOf_one (Nat.lt_one_iff.mp hcount)).mp hparts
      have hplain := Plain.full (groups_iff.mpr ⟨hall, rfl⟩) (by rw [List.length_map, hlength])
      rwa [joined_splitRaw] at hplain
    · have hlength := length_splitDouble ':' cs
      rw [hcount] at hlength
      obtain ⟨l, r, hpieces⟩ := List.length_eq_two.mp hlength
      obtain ⟨hall, hseven, rfl⟩ := (hextetsOf_two hpieces).mp hparts
      obtain ⟨hleft, hright⟩ := List.forall_mem_append.mp hall
      have hplain := Plain.compressed (groups_iff.mpr ⟨hleft, rfl⟩) (groups_iff.mpr ⟨hright, rfl⟩)
        (by rwa [List.length_map, List.length_map])
      rw [joined_splitRaw, joined_splitRaw, List.length_map, List.length_map] at hplain
      have hjoin := intercalate_splitDouble ':' cs
      rw [hpieces, List.intercalate_cons_cons, List.intercalate_singleton,
        List.append_assoc] at hjoin
      rw [map_parseHex_zeros _ rfl rfl, ← hjoin]
      exact hplain
    · rw [hextetsOf_more hcount] at hparts
      exact absurd hparts nofun
  · intro h
    cases h with
    | @full parts groups hgroups hlength =>
      obtain ⟨hne, hcolon⟩ := group_no_colon hgroups
      obtain ⟨hall, hread⟩ := groups_iff.mp hgroups
      have hcount : countDouble ':' (joined parts) = 0 := (single_intercalate hne hcolon).1.count
      refine ⟨parts, (hextetsOf_one hcount).mpr ⟨splitRaw_joined hne hcolon, hall, ?_⟩, hread⟩
      rw [hgroups.length_eq, hlength]
    | @compressed left right before after hleft hright hlength =>
      obtain ⟨hleftNe, hleftColon⟩ := group_no_colon hleft
      obtain ⟨hrightNe, hrightColon⟩ := group_no_colon hright
      obtain ⟨hleftAll, hleftRead⟩ := groups_iff.mp hleft
      obtain ⟨hrightAll, hrightRead⟩ := groups_iff.mp hright
      obtain ⟨hleftSingle, hleftLast⟩ := single_intercalate hleftNe hleftColon
      have hrightSingle := (single_intercalate hrightNe hrightColon).1
      have hpieces : splitDouble ':' (joined left ++ ':' :: ':' :: joined right) =
          [joined left, joined right] :=
        calc splitDouble ':' (joined left ++ ':' :: ':' :: joined right)
            = joined left :: splitDouble ':' (joined right) :=
              splitDouble_append (joined right) hleftSingle.count hleftLast
          _ = [joined left, joined right] :=
              congrArg (joined left :: ·) (splitDouble_of_count hrightSingle.count)
      refine ⟨_, (hextetsOf_two hpieces).mpr ⟨?_, ?_, rfl⟩, ?_⟩
      · rw [splitRaw_joined hleftNe hleftColon, splitRaw_joined hrightNe hrightColon]
        exact List.forall_mem_append.mpr ⟨hleftAll, hrightAll⟩
      · rwa [splitRaw_joined hleftNe hleftColon, splitRaw_joined hrightNe hrightColon,
          hleft.length_eq, hright.length_eq]
      · rw [splitRaw_joined hleftNe hleftColon, splitRaw_joined hrightNe hrightColon,
          map_parseHex_zeros _ hleftRead hrightRead, hleft.length_eq, hright.length_eq]

/-! ### Octets at the end -/

theorem isDottedNumbers_quad (h : Quad cs octets) : isDottedNumbers cs = true := by
  unfold isDottedNumbers
  simp only [Bool.and_eq_true, decide_eq_true_eq, List.all_eq_true]
  rw [splitOn_quad h, List.length_map]
  refine ⟨h.length, fun part hpart => ?_⟩
  obtain ⟨octet, -, rfl⟩ := List.mem_map.mp hpart
  refine ⟨?_, fun c hc => isDigit_of_mem hc⟩
  rw [Bool.not_eq_true', List.isEmpty_eq_false_iff]
  exact Nat.toDigits_ne_nil

theorem isDottedNumbers_no_dot (h : '.' ∉ cs) : isDottedNumbers cs = false := by
  unfold isDottedNumbers
  rw [List.splitOn_eq_singleton h]
  rfl

/-- Octets at the end are those behind the last colon. -/
theorem embeddedIpv4_eq (hfront : EndsInSep ':' front) (hlast : ':' ∉ last) :
    embeddedIpv4 (front ++ last) = if isDottedNumbers last then some last else none := by
  obtain ⟨pieces, -, hsplit⟩ := splitOn_front hfront
  rw [embeddedIpv4, hsplit, List.splitOn_eq_singleton hlast, List.getLast?_concat]
  rfl

theorem shiftLeft_or {a b : ℕ} (h : b < 256) : a <<< 8 ||| b = 256 * a + b := by
  rw [← Nat.shiftLeft_add_eq_or_of_lt (i := 8) h, Nat.shiftLeft_eq, Nat.mul_comm]

theorem exists_four (h : Quad cs octets) :
    ∃ a b c d, octets = [a, b, c, d] ∧ b < 256 ∧ d < 256 := by
  obtain ⟨a, b, c, d, rfl⟩ := List.length_eq_four.mp h.length
  exact ⟨a, b, c, d, rfl, h.bound b (by simp), h.bound d (by simp)⟩

theorem joined_quad (a b c d : ℕ) : joined ((quadGroups [a, b, c, d]).map toHex) =
    toHex (256 * a + b) ++ ':' :: toHex (256 * c + d) := by
  rw [quadGroups, List.map_cons, List.map_singleton, joined, List.intercalate_cons_cons,
    List.intercalate_singleton, List.append_assoc, List.singleton_append]

section

variable (hfront : EndsInSep ':' front)
include hfront

theorem rewriteEmbedded_quad (h : Quad cs octets) :
    rewriteEmbedded (front ++ cs) = some (front ++ joined ((quadGroups octets).map toHex)) := by
  have hembedded : embeddedIpv4 (front ++ cs) = some cs := by
    rw [embeddedIpv4_eq hfront h.no_colon, if_pos (isDottedNumbers_quad h)]
  have hcanonical : canonicalIpv4 cs = some cs := canonicalIpv4_eq_some.mpr ⟨rfl, octets, h⟩
  have hoctets : (cs.splitOn '.').map decimal = octets := by
    rw [splitOn_quad h, List.map_map]
    exact List.map_id'' decimal_toDigits octets
  have htake : (front ++ cs).length - cs.length = front.length := by
    rw [List.length_append, Nat.add_sub_cancel]
  obtain ⟨a, b, c, d, rfl, hb, hd⟩ := exists_four h
  unfold rewriteEmbedded
  simp only [hembedded, hcanonical, Option.map_some, hoctets, htake, List.take_left]
  rw [List.getD_cons_zero, List.getD_cons_succ, List.getD_cons_zero, List.getD_cons_succ,
    List.getD_cons_succ, List.getD_cons_zero, List.getD_cons_succ, List.getD_cons_succ,
    List.getD_cons_succ, List.getD_cons_zero, shiftLeft_or hb, shiftLeft_or hd, joined_quad]

theorem rewriteEmbedded_plain (hlast : ':' ∉ last) (h : isDottedNumbers last = false) :
    rewriteEmbedded (front ++ last) = some (front ++ last) := by
  unfold rewriteEmbedded
  rw [embeddedIpv4_eq hfront hlast, h]
  rfl

/-- What has dots and is not octets is refused. -/
theorem rewriteEmbedded_some {out : List Char} (hlast : ':' ∉ last)
    (hdotted : isDottedNumbers last = true) (h : rewriteEmbedded (front ++ last) = some out) :
    ∃ octets, Quad last octets := by
  unfold rewriteEmbedded at h
  rw [embeddedIpv4_eq hfront hlast, if_pos hdotted] at h
  obtain ⟨canonical, hcanonical, -⟩ := Option.map_eq_some_iff.mp h
  exact (canonicalIpv4_eq_some.mp hcanonical).2

end

theorem rewriteEmbedded_no_dot (h : '.' ∉ cs) : rewriteEmbedded cs = some cs := by
  obtain ⟨front, last, rfl, hfront, hlast⟩ := exists_front ':' cs
  exact rewriteEmbedded_plain hfront hlast
    (isDottedNumbers_no_dot fun hmem => h (List.mem_append_right front hmem))

/-- The two groups of four octets, as text. -/
theorem groups_quad (h : Quad cs octets) :
    List.Forall₂ Group ((quadGroups octets).map toHex) (quadGroups octets) := by
  obtain ⟨a, b, c, d, rfl, -, -⟩ := exists_four h
  have ha := h.bound a (by simp)
  have hb := h.bound b (by simp)
  have hc := h.bound c (by simp)
  have hd := h.bound d (by simp)
  exact .cons (group_toHex (by omega)) (.cons (group_toHex (by omega)) .nil)

theorem quadText_ne_nil (h : Quad cs octets) : (quadGroups octets).map toHex ≠ [] := by
  obtain ⟨a, b, c, d, rfl, -, -⟩ := exists_four h
  exact List.cons_ne_nil _ _

theorem joined_quad_ne_nil (h : Quad cs octets) : joined ((quadGroups octets).map toHex) ≠ [] := by
  obtain ⟨a, b, c, d, rfl, -, -⟩ := exists_four h
  rw [joined_quad]
  exact List.append_ne_nil_of_right_ne_nil _ (List.cons_ne_nil _ _)

theorem endsInSep_front_lead (hfront : EndsInSep ':' front) (parts : List (List Char)) :
    EndsInSep ':' (front ++ lead ':' parts) := by
  by_cases hnil : lead ':' parts = []
  · rwa [hnil, List.append_nil]
  · exact endsInSep_append front (endsInSep_lead parts) hnil

theorem joined_append (parts : List (List Char)) {rest : List (List Char)} (h : rest ≠ []) :
    joined (parts ++ rest) = lead ':' parts ++ joined rest := intercalate_append parts h

theorem joined_concat (parts : List (List Char)) (cs : List Char) :
    joined (parts ++ [cs]) = lead ':' parts ++ cs := by
  rw [joined_append parts (List.cons_ne_nil _ _), joined, List.intercalate_singleton]

theorem groups_no_dot (h : List.Forall₂ Group parts groups) : '.' ∉ joined parts := by
  intro hmem
  rcases Separated.mem_intercalate hmem with heq | ⟨part, hpart, hin⟩
  · exact absurd heq (by decide)
  · obtain ⟨n, hgroup⟩ := exists_group h part hpart
    exact absurd (hgroup.chars '.' hin) (by decide)

/-- Parts are rewritten to parts that are groups. -/
theorem rewriteEmbedded_groups (hfront : EndsInSep ':' front) (hdot : '.' ∉ front)
    (h : Groups parts groups) :
    ∃ plain, List.Forall₂ Group plain groups ∧
      rewriteEmbedded (front ++ joined parts) = some (front ++ joined plain) := by
  cases h with
  | plain hgroups =>
    refine ⟨parts, hgroups, rewriteEmbedded_no_dot fun hmem => ?_⟩
    exact (List.mem_append.mp hmem).elim hdot (groups_no_dot hgroups)
  | @quad parts groups cs octets hgroups hquad =>
    refine ⟨parts ++ (quadGroups octets).map toHex, List.rel_append hgroups (groups_quad hquad), ?_⟩
    rw [joined_concat, ← List.append_assoc,
      rewriteEmbedded_quad (endsInSep_front_lead hfront parts) hquad,
      joined_append parts (quadText_ne_nil hquad), List.append_assoc]

/-- Parts that end in the groups of octets are rewritten back. -/
theorem groups_of_rewritten (hfront : EndsInSep ':' front) (hquad : Quad cs octets)
    (hparts : List.Forall₂ Group parts groups)
    (hjoined : joined parts = front ++ joined ((quadGroups octets).map toHex)) :
    ∃ back, Groups back groups ∧ joined back = front ++ cs := by
  obtain ⟨pieces, hlead, hsplit⟩ := splitOn_front hfront
  have hpair := groups_quad hquad
  have hne := quadText_ne_nil hquad
  have hparts' : parts = pieces ++ (quadGroups octets).map toHex := by
    have hpairSplit := List.splitOn_intercalate ':' (group_no_colon hpair).2 hne
    have hnil : parts ≠ [] := by
      rintro rfl
      exact joined_quad_ne_nil hquad (List.append_eq_nil_iff.mp hjoined.symm).2
    calc parts = (joined parts).splitOn ':' :=
          (List.splitOn_intercalate ':' (group_no_colon hparts).2 hnil).symm
      _ = pieces ++ (joined ((quadGroups octets).map toHex)).splitOn ':' := by rw [hjoined, hsplit]
      _ = pieces ++ (quadGroups octets).map toHex := by rw [joined, hpairSplit]
  obtain ⟨hall, hread⟩ := groups_iff.mp hparts
  rw [hparts', List.map_append, (groups_iff.mp hpair).2] at hread
  rw [hparts', List.forall_mem_append] at hall
  refine ⟨pieces ++ [cs], ?_, by rw [joined_concat, hlead]⟩
  rw [← hread]
  exact .quad (groups_iff.mpr ⟨hall.1, rfl⟩) hquad

/-- The groups of a text, with octets at its end. -/
def readGroups (cs : List Char) : Option (List ℕ) :=
  (rewriteEmbedded cs).bind fun ipv6 => (hextetsOf ipv6).map (·.map parseHex)

/-- What is read after octets were rewritten, the text spells. -/
theorem spells_of_rewritten (hfront : EndsInSep ':' front) (hquad : Quad cs octets)
    (h : Plain (front ++ joined ((quadGroups octets).map toHex)) groups) :
    SpellsGroups (front ++ cs) groups := by
  have hpair := group_no_colon (groups_quad hquad)
  have hsingle : Single ':' (joined ((quadGroups octets).map toHex)) :=
    (single_intercalate hpair.1 hpair.2).1
  generalize htext : front ++ joined ((quadGroups octets).map toHex) = text at h
  cases h with
  | full hgroups hlength =>
    obtain ⟨back, hback, hjoined⟩ := groups_of_rewritten hfront hquad hgroups htext.symm
    rw [← hjoined]
    exact .full hback hlength
  | @compressed left right before after hleft hright hlength =>
    obtain ⟨hleftNe, hleftColon⟩ := group_no_colon hleft
    obtain ⟨hrightNe, hrightColon⟩ := group_no_colon hright
    obtain ⟨hleftSingle, hleftLast⟩ := single_intercalate hleftNe hleftColon
    have hrightSingle := (single_intercalate hrightNe hrightColon).1
    -- The doubled colon is before the octets, so that both readings are split at it.
    obtain ⟨pieces, last, hends, hfrontJoin, hsplit⟩ := splitDouble_ending hfront
    have hpieces : pieces ++ [last ++ joined ((quadGroups octets).map toHex)] =
        [joined left] ++ [joined right] :=
      calc pieces ++ [last ++ joined ((quadGroups octets).map toHex)]
          = splitDouble ':' (front ++ joined ((quadGroups octets).map toHex)) :=
            (hsplit _ hsingle).symm
        _ = splitDouble ':' (joined left ++ ':' :: ':' :: joined right) := by rw [htext]
        _ = joined left :: splitDouble ':' (joined right) :=
            splitDouble_append (joined right) hleftSingle.count hleftLast
        _ = [joined left] ++ [joined right] :=
            congrArg (joined left :: ·) (splitDouble_of_count hrightSingle.count)
    obtain ⟨rfl, hlast⟩ := List.append_inj' hpieces rfl
    have hrightJoin := (List.cons.inj hlast).1
    obtain ⟨back, hback, hjoined⟩ := groups_of_rewritten hends hquad hright hrightJoin.symm
    rw [List.singleton_append, List.intercalate_cons_cons, List.intercalate_singleton,
      List.append_assoc] at hfrontJoin
    rw [← hfrontJoin, List.append_assoc, List.append_assoc, ← hjoined]
    exact .compressed hleft hback hlength

/-- **The groups that are read** are those that the text spells. -/
theorem readGroups_eq_some : readGroups cs = some groups ↔ SpellsGroups cs groups := by
  rw [readGroups, Option.bind_eq_some_iff]
  constructor
  · rintro ⟨ipv6, hrewrite, hread⟩
    rw [hextetsOf_plain] at hread
    obtain ⟨front, last, rfl, hfront, hlast⟩ := exists_front ':' cs
    cases hdotted : isDottedNumbers last with
    | false =>
      rw [rewriteEmbedded_plain hfront hlast hdotted] at hrewrite
      rw [Option.some.inj hrewrite]
      cases hread with
      | full hgroups hlength => exact .full (.plain hgroups) hlength
      | compressed hleft hright hlength => exact .compressed hleft (.plain hright) hlength
    | true =>
      obtain ⟨octets, hquad⟩ := rewriteEmbedded_some hfront hlast hdotted hrewrite
      rw [rewriteEmbedded_quad hfront hquad] at hrewrite
      rw [← Option.some.inj hrewrite] at hread
      exact spells_of_rewritten hfront hquad hread
  · intro h
    cases h with
    | full hgroups hlength =>
      obtain ⟨plain, hplain, hrewrite⟩ :=
        rewriteEmbedded_groups (Or.inl rfl) List.not_mem_nil hgroups
      exact ⟨_, hrewrite, hextetsOf_plain.mpr (.full hplain hlength)⟩
    | @compressed left right before after hleft hright hlength =>
      have hfront : EndsInSep ':' (joined left ++ [':', ':']) := Or.inr (by simp)
      have hdot : '.' ∉ joined left ++ [':', ':'] := by
        rw [List.mem_append, not_or]
        exact ⟨groups_no_dot hleft, by decide⟩
      obtain ⟨plain, hplain, hrewrite⟩ := rewriteEmbedded_groups hfront hdot hright
      rw [List.append_assoc, List.append_assoc] at hrewrite
      exact ⟨_, hrewrite, hextetsOf_plain.mpr (.compressed hleft hplain hlength)⟩

end MailPortal.Recovery
