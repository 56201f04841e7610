import MailPortal.Recipients.Addresses

/-!
# Recipients are Read back

What the composer shows is a list of recipients. When it is joined, the text is read as the list
again if each recipient stands for itself, and if no quote, bracket or comment is left open in front
of another recipient. In a text there is never one open in front of a separator, so that it depends
on what is read in each part.

Main results:

* `splitAddressList_closed` : in all parts but the last, everything is closed.
* `parseRecipientText_join` : a list of recipients that stand for themselves is read back.
-/

namespace MailPortal.Recipients

open Utf16

variable {u : UInt16} {text part rest piece : Units} {skip skip' : Bool} {s s' : ScanState}
variable {state : Bool × ScanState} {gap : Units}
variable {recipients : List Units}

/-! ### What one character does -/

/-- The scan stays where it is. -/
structure IsNeutral (u : UInt16) : Prop where
  not_quote : u ≠ QUOTE
  not_open : u ≠ OPEN
  not_less : u ≠ LESS

instance (u : UInt16) : Decidable (IsNeutral u) :=
  decidable_of_iff (u ≠ QUOTE ∧ u ≠ OPEN ∧ u ≠ LESS)
    ⟨fun h => ⟨h.1, h.2.1, h.2.2⟩, fun h => ⟨h.not_quote, h.not_open, h.not_less⟩⟩

theorem scanUnit_neutral (h : IsNeutral u) : scanUnit {} u = (isSeparatorUnit u, false, {}) := by
  rw [scanUnit]
  simp [h.not_quote, h.not_open, h.not_less]

/-- White space is none of the characters that the scan is about. -/
theorem not_special_of_space (h : isSpaceUnit u = true) :
    IsNeutral u ∧ u ≠ CLOSE ∧ u ≠ GREATER ∧ u ≠ BACKSLASH := by
  have hne : ∀ v, isSpaceUnit v = false → u ≠ v := by
    rintro v hv rfl
    rw [h] at hv
    cases hv
  exact ⟨⟨hne _ (by decide), hne _ (by decide), hne _ (by decide)⟩, hne _ (by decide),
    hne _ (by decide), hne _ (by decide)⟩

theorem scanUnit_space (h : isSpaceUnit u = true) (s : ScanState) :
    ∃ separates, scanUnit s u = (separates, false, s) := by
  obtain ⟨⟨hquote, hopen, hless⟩, hclose, hgreater, hbackslash⟩ := not_special_of_space h
  obtain ⟨quoted, bracketed, commentDepth⟩ := s
  rw [scanUnit]
  split_ifs
  all_goals simp_all

/-- Separators are found where nothing is open. -/
theorem scanUnit_separates (h : (scanUnit s u).1 = true) :
    s = {} ∧ (scanUnit s u).2 = (false, {}) := by
  obtain ⟨quoted, bracketed, commentDepth⟩ := s
  rw [scanUnit] at h ⊢
  split_ifs at h ⊢
  simp_all

/-- Characters are escaped where something is open. -/
theorem scanUnit_escapes (h : (scanUnit s u).2.1 = true) : (scanUnit s u).2.2 ≠ {} := by
  obtain ⟨quoted, bracketed, commentDepth⟩ := s
  rw [scanUnit] at h ⊢
  split_ifs at h ⊢ with hescape
  all_goals simp_all
  rcases hescape.1 with rfl | hdepth
  · simp
  · exact fun _ _ => hdepth.ne'

/-! ### Scanning a part -/

/-- Where the scan is behind a text in which it finds no separator. -/
def scanEnd : (skip : Bool) → ScanState → Units → Option (Bool × ScanState)
  | skip, s, [] => some (skip, s)
  | true, s, _ :: rest => scanEnd false s rest
  | false, s, u :: rest =>
    let (separates, skip, s') := scanUnit s u
    if separates then none else scanEnd skip s' rest

/-- The text is one part. -/
def IsUnsplit (text : Units) : Prop := ∃ state, scanEnd false {} text = some state

/-- The text is one part, in which nothing is left open. -/
def IsClosed (text : Units) : Prop := scanEnd false {} text = some (false, {})

theorem scanEnd_nil : scanEnd skip s [] = some (skip, s) := by
  cases skip <;> rfl

theorem splitFrom_append (h : scanEnd skip s part = some (skip', s')) (rest : Units) :
    splitFrom skip s (part ++ rest) = (splitFrom skip' s' rest).modifyHead (part ++ ·) := by
  induction part generalizing skip s with
  | nil =>
    rw [scanEnd_nil] at h
    cases h
    have hid : (fun piece : Units => [] ++ piece) = id := rfl
    rw [hid, List.modifyHead_id]
    rfl
  | cons u part ih =>
    cases skip with
    | true =>
      rw [List.cons_append, splitFrom, ih h, List.modifyHead_modifyHead]
      rfl
    | false =>
      rw [scanEnd] at h
      dsimp only at h
      split at h
      · cases h
      · rename_i hu
        rw [List.cons_append, splitFrom]
        dsimp only
        rw [if_neg hu, ih h, List.modifyHead_modifyHead]
        rfl

theorem scanEnd_append (h : scanEnd skip s (part ++ rest) = some state) :
    ∃ skip' s', scanEnd skip s part = some (skip', s') ∧ scanEnd skip' s' rest = some state := by
  induction part generalizing skip s with
  | nil => exact ⟨skip, s, scanEnd_nil, h⟩
  | cons u part ih =>
    cases skip with
    | true => exact ih h
    | false =>
      rw [List.cons_append, scanEnd] at h
      rw [scanEnd]
      dsimp only at h ⊢
      split at h
      · cases h
      · rename_i hu
        rw [if_neg hu]
        exact ih h

theorem scanEnd_neutral (h : ∀ u ∈ text, IsNeutral u ∧ isSeparatorUnit u = false) :
    scanEnd false {} text = some (false, {}) := by
  induction text with
  | nil => rfl
  | cons u text ih =>
    obtain ⟨hneutral, hu⟩ := h u List.mem_cons_self
    rw [scanEnd, scanUnit_neutral hneutral, hu]
    exact ih fun v hv => h v (List.mem_cons_of_mem u hv)

/-- White space leaves the scan where it is, and uses up an escape. -/
theorem scanEnd_spaces (hspaces : ∀ u ∈ text, isSpaceUnit u = true)
    (h : scanEnd skip s text = some state) : state.2 = s ∧ (state.1 = true → skip = true) := by
  induction text generalizing skip with
  | nil =>
    rw [scanEnd_nil] at h
    cases h
    exact ⟨rfl, id⟩
  | cons u text ih =>
    have htail := fun v hv => hspaces v (List.mem_cons_of_mem u hv)
    cases skip with
    | true =>
      obtain ⟨hsame, hskip⟩ := ih htail h
      exact ⟨hsame, fun hend => absurd (hskip hend) Bool.false_ne_true⟩
    | false =>
      obtain ⟨separates, hu⟩ := scanUnit_space (hspaces u List.mem_cons_self) s
      rw [scanEnd, hu] at h
      dsimp only at h
      split at h
      · cases h
      · exact ih htail h

/-- An escape at the end of a part is inside what is open. -/
theorem scanEnd_escape (h : scanEnd skip s text = some (true, s')) (hskip : skip = true → s ≠ {}) :
    s' ≠ {} := by
  induction text generalizing skip s with
  | nil =>
    rw [scanEnd_nil] at h
    cases h
    exact hskip rfl
  | cons u text ih =>
    cases skip with
    | true => exact ih h fun hfalse => absurd hfalse Bool.false_ne_true
    | false =>
      rw [scanEnd] at h
      dsimp only at h
      split at h
      · cases h
      · exact ih h scanUnit_escapes

theorem IsClosed.isUnsplit (h : IsClosed text) : IsUnsplit text := ⟨_, h⟩

/-- **The pieces of a text** are parts, and all but the last are closed. -/
theorem splitFrom_closed (skip : Bool) (s : ScanState) (text : Units) :
    ∃ first others state, splitFrom skip s text = first :: others ∧
      scanEnd skip s first = some state ∧ (others ≠ [] → state = (false, {})) ∧
      others.Pairwise (fun piece _ => IsClosed piece) ∧ ∀ piece ∈ others, IsUnsplit piece := by
  induction text generalizing skip s with
  | nil =>
    refine ⟨[], [], (skip, s), ?_, scanEnd_nil, fun h => absurd rfl h, .nil, ?_⟩
    · cases skip <;> rfl
    · exact nofun
  | cons u text ih =>
    cases skip with
    | true =>
      obtain ⟨first, others, state, hsplit, hfirst, hclosed, hpairs, hothers⟩ := ih false s
      refine ⟨u :: first, others, state, ?_, hfirst, hclosed, hpairs, hothers⟩
      rw [splitFrom, hsplit]
      rfl
    | false =>
      obtain ⟨first, others, state, hsplit, hfirst, hclosed, hpairs, hothers⟩ :=
        ih (scanUnit s u).2.1 (scanUnit s u).2.2
      rw [splitFrom]
      dsimp only
      rw [hsplit]
      cases hu : (scanUnit s u).1 with
      | false =>
        refine ⟨u :: first, others, state, rfl, ?_, hclosed, hpairs, hothers⟩
        rw [scanEnd]
        dsimp only
        rw [hu]
        exact hfirst
      | true =>
        obtain ⟨rfl, hstart⟩ := scanUnit_separates hu
        rw [hstart] at hfirst
        refine ⟨[], first :: others, (false, {}), rfl, rfl, fun _ => rfl, ?_, ?_⟩
        · refine List.pairwise_cons.mpr ⟨fun piece hpiece => ?_, hpairs⟩
          rw [hclosed (List.ne_nil_of_mem hpiece)] at hfirst
          exact hfirst
        · intro piece hpiece
          rcases List.mem_cons.mp hpiece with rfl | hpiece
          · exact ⟨state, hfirst⟩
          · exact hothers piece hpiece

/-! ### Trimming a part -/

theorem trim_space (hu : isSpaceUnit u = true) : trim (u :: text) = trim text := by
  rw [trim, trim, Words.trimBoth, Words.trimBoth, List.dropWhile_cons_of_pos hu]

theorem trim_append_spaces (hne : text ≠ []) (htrimmed : trim text = text)
    (hspaces : ∀ u ∈ rest, isSpaceUnit u = true) : trim (text ++ rest) = text := by
  obtain ⟨hhead, hlast⟩ := Words.ends_trimBoth isSpaceUnit text
  rw [← trim, htrimmed] at hhead hlast
  have hwhole : ∀ c ∈ (text ++ rest).head?, isSpaceUnit c = false := by
    rw [List.head?_append_of_ne_nil _ hne]
    exact hhead
  rw [trim, Words.trimBoth, Words.dropWhile_of_head hwhole]
  have hend := List.getLast?_eq_some_getLast hne
  exact Words.trimEnd_append ⟨text.getLast hne, hend, hlast _ hend⟩ hspaces

/-- Where the scan is behind the text without the white space around it. -/
theorem scanEnd_trim (h : scanEnd false {} text = some state) :
    ∃ state', scanEnd false {} (trim text) = some state' ∧
      (state = (false, {}) → state' = (false, {})) := by
  obtain ⟨after, hafter, hbehind⟩ := Words.exists_trimEnd isSpaceUnit text
  obtain ⟨before, hbefore, hfront⟩ := Words.exists_trimBoth isSpaceUnit text
  rw [hafter, hfront] at h
  obtain ⟨skip', s', hinner, hend⟩ := scanEnd_append h
  obtain ⟨skip₁, s₁, hlead, hcore⟩ := scanEnd_append hinner
  obtain ⟨hsame, hskip⟩ := scanEnd_spaces hbefore hlead
  obtain rfl : skip₁ = false := Bool.eq_false_iff.mpr fun htrue => Bool.false_ne_true (hskip htrue)
  obtain rfl : s₁ = {} := hsame
  refine ⟨(skip', s'), hcore, fun hstate => ?_⟩
  obtain ⟨hstays, -⟩ := scanEnd_spaces hbehind hend
  obtain rfl : {} = s' := by rw [hstate] at hstays; exact hstays
  cases skip' with
  | false => rfl
  | true => exact absurd rfl (scanEnd_escape hcore fun hfalse => absurd hfalse Bool.false_ne_true)

theorem IsClosed.trim (h : IsClosed text) : IsClosed (trim text) := by
  obtain ⟨state, hstate, hclosed⟩ := scanEnd_trim h
  rw [hclosed rfl] at hstate
  exact hstate

theorem IsUnsplit.trim (h : IsUnsplit text) : IsUnsplit (trim text) := by
  obtain ⟨state, hstate⟩ := h
  obtain ⟨state', hstate', -⟩ := scanEnd_trim hstate
  exact ⟨state', hstate'⟩

/-- **In all parts but the last** everything is closed. -/
theorem splitAddressList_closed (text : Units) :
    (splitAddressList text).Pairwise (fun part _ => IsClosed part) ∧
      ∀ part ∈ splitAddressList text, IsUnsplit part ∧ part ≠ [] ∧ trim part = part := by
  obtain ⟨first, others, state, hsplit, hfirst, hclosed, hpairs, hothers⟩ :=
    splitFrom_closed false {} text
  have hpieces : (splitFrom false {} text).Pairwise fun piece _ => IsClosed piece := by
    rw [hsplit]
    refine List.pairwise_cons.mpr ⟨fun piece hpiece => ?_, hpairs⟩
    rw [hclosed (List.ne_nil_of_mem hpiece)] at hfirst
    exact hfirst
  have hunsplit : ∀ piece ∈ splitFrom false {} text, IsUnsplit piece := by
    rw [hsplit]
    exact List.forall_mem_cons.mpr ⟨⟨state, hfirst⟩, hothers⟩
  rw [splitAddressList_eq]
  constructor
  · exact (List.pairwise_map.mpr (hpieces.imp IsClosed.trim)).filter _
  · intro part hpart
    obtain ⟨hpart, hne⟩ := List.mem_filter.mp hpart
    obtain ⟨piece, hpiece, rfl⟩ := List.mem_map.mp hpart
    refine ⟨(hunsplit piece hpiece).trim, ?_, Words.trimBoth_trimBoth isSpaceUnit piece⟩
    rintro hnil
    rw [hnil] at hne
    cases hne

/-! ### Joining recipients -/

/-- What may stand between two recipients: white space and separators, at least one of them. -/
structure IsGap (gap : Units) : Prop where
  units : ∀ u ∈ gap, isSpaceUnit u = true ∨ isSeparatorUnit u = true
  separates : ∃ u ∈ gap, isSeparatorUnit u = true

/-- The text is one part, and is read as itself. -/
structure StandsAlone (recipient : Units) : Prop where
  ne_nil : recipient ≠ []
  trimmed : trim recipient = recipient
  unsplit : IsUnsplit recipient
  alone : partRecipients recipient = [recipient]

theorem isNeutral_of_gap (h : isSpaceUnit u = true ∨ isSeparatorUnit u = true) : IsNeutral u := by
  rcases h with hspace | hseparator
  · exact (not_special_of_space hspace).1
  · have hne : ∀ v, isSeparatorUnit v = false → u ≠ v := by
      rintro v hv rfl
      rw [hseparator] at hv
      cases hv
    exact ⟨hne _ (by decide), hne _ (by decide), hne _ (by decide)⟩

theorem splitFrom_separator (hu : isSeparatorUnit u = true) (rest : Units) :
    splitFrom false {} (u :: rest) = [] :: splitFrom false {} rest := by
  rw [splitFrom, scanUnit_neutral (isNeutral_of_gap (.inr hu))]
  exact if_pos hu

/-- White space and separators at the beginning are no part. -/
theorem splitAddressList_gap (hgap : ∀ u ∈ gap, isSpaceUnit u = true ∨ isSeparatorUnit u = true)
    (rest : Units) : splitAddressList (gap ++ rest) = splitAddressList rest := by
  induction gap with
  | nil => rfl
  | cons u gap ih =>
    have hunit := hgap u List.mem_cons_self
    rw [← ih fun v hv => hgap v (List.mem_cons_of_mem u hv), List.cons_append, splitAddressList_eq,
      splitAddressList_eq]
    cases hu : isSeparatorUnit u with
    | true =>
      rw [splitFrom_separator hu, List.map_cons]
      exact List.filter_cons_of_neg Bool.false_ne_true
    | false =>
      have hspace : isSpaceUnit u = true := by
        rw [hu] at hunit
        exact hunit.resolve_right Bool.false_ne_true
      obtain ⟨first, others, state, hsplit, -⟩ := splitFrom_closed false {} (gap ++ rest)
      rw [splitFrom, scanUnit_neutral (isNeutral_of_gap hunit), hu, hsplit]
      dsimp only
      rw [if_neg Bool.false_ne_true, hsplit, List.modifyHead_cons, List.map_cons, List.map_cons,
        trim_space hspace]

/-- A closed part in front of a gap is read as it stands. -/
theorem splitAddressList_append (hne : part ≠ []) (htrimmed : trim part = part)
    (hclosed : IsClosed part) (hgap : IsGap gap) (rest : Units) :
    splitAddressList (part ++ (gap ++ rest)) = part :: splitAddressList rest := by
  obtain ⟨v, hfound⟩ := Option.isSome_iff_exists.mp (List.find?_isSome.mpr hgap.separates)
  obtain ⟨hv, spaces, more, rfl, hspaces⟩ := List.find?_eq_some_iff_append.mp hfound
  have hnone : ∀ u ∈ spaces, isSpaceUnit u = true ∧ isSeparatorUnit u = false := by
    intro u hu
    have hseparator : isSeparatorUnit u = false := by simpa using hspaces u hu
    have hunit := hgap.units u (List.mem_append_left _ hu)
    rw [hseparator] at hunit
    exact ⟨hunit.resolve_right Bool.false_ne_true, hseparator⟩
  have hblank : scanEnd false {} spaces = some (false, {}) :=
    scanEnd_neutral fun u hu => ⟨isNeutral_of_gap (.inl (hnone u hu).1), (hnone u hu).2⟩
  have hmore : ∀ u ∈ more, isSpaceUnit u = true ∨ isSeparatorUnit u = true := fun u hu =>
    hgap.units u (List.mem_append_right _ (List.mem_cons_of_mem v hu))
  rw [← splitAddressList_gap hmore rest, splitAddressList_eq, splitFrom_append hclosed,
    List.append_assoc, splitFrom_append hblank, List.cons_append, splitFrom_separator hv,
    List.modifyHead_cons, List.modifyHead_cons, List.append_nil, List.map_cons,
    trim_append_spaces hne htrimmed fun u hu => (hnone u hu).1, splitAddressList_eq]
  exact List.filter_cons_of_pos (by cases part <;> trivial)

/-- A part is read as it stands. -/
theorem splitAddressList_unsplit (hne : part ≠ []) (htrimmed : trim part = part)
    (hunsplit : IsUnsplit part) : splitAddressList part = [part] := by
  obtain ⟨⟨skip, s⟩, hend⟩ := hunsplit
  have hsplit := splitFrom_append hend []
  have hnothing : splitFrom skip s [] = [[]] := by cases skip <;> rfl
  rw [hnothing, List.append_nil, List.modifyHead_cons, List.append_nil] at hsplit
  rw [splitAddressList_eq, hsplit, List.map_singleton, htrimmed]
  exact List.filter_cons_of_pos (by cases part <;> trivial)

section

variable (hgap : IsGap gap) (hclosed : recipients.Pairwise fun recipient _ => IsClosed recipient)
  (halone : ∀ recipient ∈ recipients, StandsAlone recipient)
include hgap hclosed halone

/-- The parts of joined parts, of which all but the last are closed. -/
theorem splitAddressList_join : splitAddressList (gap.intercalate recipients) = recipients := by
  induction recipients with
  | nil => rfl
  | cons recipient recipients ih =>
    obtain ⟨hne, htrimmed, hunsplit, -⟩ := halone recipient List.mem_cons_self
    cases recipients with
    | nil =>
      rw [List.intercalate_singleton]
      exact splitAddressList_unsplit hne htrimmed hunsplit
    | cons next recipients =>
      obtain ⟨hfirst, hothers⟩ := List.pairwise_cons.mp hclosed
      rw [List.intercalate_cons_cons, List.append_assoc, splitAddressList_append hne htrimmed
        (hfirst next List.mem_cons_self) hgap]
      exact congrArg (recipient :: ·)
        (ih hothers fun r hr => halone r (List.mem_cons_of_mem recipient hr))

/-- **Joined recipients are read back** if each stands for itself and leaves nothing open. -/
theorem parseRecipientText_join : parseRecipientText (gap.intercalate recipients) = recipients := by
  rw [parseRecipientText, splitAddressList_join hgap hclosed halone,
    List.flatMap_congr fun r hr => (halone r hr).alone, List.flatMap_singleton']

end

end MailPortal.Recipients
