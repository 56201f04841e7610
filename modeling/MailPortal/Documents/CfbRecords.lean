import MailPortal.Documents.CfbReader
import MailPortal.Lib.Biff

/-!
# The Records of a Workbook

The reader goes over the records of the stream from its first byte on. It keeps what is behind it in
substreams, the first of them that of the workbook globals, and accepts the stream when none is open
at its end, where fewer than four bytes or zeros may follow.

Main results:

* `nextRecord_cases` : what a pass finds and keeps.
* `checkRecords_bracketed` : an accepted stream is substreams without a refused record.
-/

namespace MailPortal.Documents

open Bytes Failure Loop Biff

variable {r : Record} {record : ℕ} {payload : List UInt8} {current : List Record}
variable {done : List Substream}

/-! ### What a pass does -/

/-- The records that a workbook is refused for. -/
def Refused (r : Record) : Prop :=
  r.kind = 0x002f ∨ r.kind = 0x00d3 ∨ r.kind ∈ [0x005d, 0x007f, 0x00eb, 0x00ec, 0x00ed] ∨
    (r.kind = 0x0085 ∧ ∃ b ∈ r.payload[5]?, b.toNat = 0x01 ∨ b.toNat = 0x06) ∨
    (r.kind = BOF ∧ (r.type = 0x0040 ∨ r.type = 0x0006))

variable {stream : List UInt8} {s s' : Records}

/-- What a record does to the state. -/
inductive Follows (s : Records) (r : Record) : Records → Prop
  | opens (hkind : r.kind = BOF) (hout : s.inSubstream = false) (hlength : 4 ≤ r.payload.length)
      (hglobals : s.sawGlobals = false → r.type = 0x0005) :
      Follows s r { s with sawGlobals := true, inSubstream := true }
  | closes (hkind : r.kind = EOF) (hin : s.inSubstream = true) (hpayload : r.payload = []) :
      Follows s r { s with sawEof := true, inSubstream := false }
  | goesOn (hkind : r.kind ≠ BOF ∧ r.kind ≠ EOF) (hin : s.inSubstream = true) : Follows s r s

theorem Follows.offset (h : Follows s r s') : s'.offset = s.offset := by
  cases h <;> rfl

theorem getUint16_eq {view : List UInt8} {offset : ℕ} (h : offset + 2 ≤ view.length) :
    getUint16 view offset = .ok (uint16 view offset) := by
  rw [getUint16, if_pos h]
  rfl

theorem checkRecord_eq_ok {u : Unit} (h : checkRecord record payload = .ok u) :
    record ≠ 0x002f ∧ record ≠ 0x00d3 ∧ record ∉ [0x005d, 0x007f, 0x00eb, 0x00ec, 0x00ed] ∧
      (record = 0x0085 → ∀ b ∈ payload[5]?, ¬(b.toNat = 0x01 ∨ b.toNat = 0x06)) := by
  obtain ⟨_, hencrypted, h⟩ := bind_eq_ok.mp h
  obtain ⟨_, hmacro, h⟩ := bind_eq_ok.mp h
  obtain ⟨_, hobjects, h⟩ := bind_eq_ok.mp h
  refine ⟨failIf_eq_ok.mp hencrypted, failIf_eq_ok.mp hmacro, failIf_eq_ok.mp hobjects, ?_⟩
  intro hsheet b hb
  obtain ⟨hlength, -⟩ := List.getElem?_eq_some_iff.mp hb
  rw [if_pos ⟨hsheet, hlength⟩] at h
  obtain ⟨type, htype, h⟩ := bind_eq_ok.mp h
  rw [byteAt, Option.mem_def.mp hb] at htype
  cases htype
  exact failIf_eq_ok.mp h

theorem contained_checkRecord : Contained (checkRecord record payload) :=
  contained_bind contained_failIf fun _ _ => contained_bind contained_failIf fun _ _ =>
    contained_bind contained_failIf fun _ _ => contained_ite
      (fun h => contained_bind (contained_byteAt h.2) fun _ _ => contained_failIf)
      fun _ => contained_ok _

theorem contained_openSubstream : Contained (openSubstream s record payload) := by
  refine contained_ite (fun _ => contained_bind contained_failIf fun _ hguard => ?_) fun _ =>
    contained_bind contained_failIf fun _ _ => contained_ok _
  have hlength : 4 ≤ payload.length := Nat.not_lt.mp (not_or.mp (failIf_eq_ok.mp hguard)).2
  exact contained_bind (contained_getUint16 hlength) fun _ _ =>
    contained_bind contained_failIf fun _ _ => contained_bind contained_failIf fun _ _ =>
      contained_ok _

theorem contained_closeSubstream : Contained (closeSubstream s record payload) :=
  contained_ite (fun _ => contained_bind contained_failIf fun _ _ => contained_ok _) fun _ =>
    contained_ok _

theorem contained_skipPadding : Contained (skipPadding stream s) :=
  contained_ite (fun _ => contained_bind contained_failIf fun _ _ => contained_ok _) fun _ =>
    contained_ok _

/-- The two steps that keep track of substreams. -/
theorem follows_of_ok {s₁ s₂ : Records} (hopen : openSubstream s r.kind r.payload = .ok s₁)
    (hclose : closeSubstream s₁ r.kind r.payload = .ok s₂) :
    Follows s r s₂ ∧ (r.kind = BOF → ¬(r.type = 0x0040 ∨ r.type = 0x0006)) := by
  unfold openSubstream at hopen
  unfold closeSubstream at hclose
  split at hopen
  · rename_i hkind
    have hnot : ¬r.kind = 0x000a := by rw [hkind]; decide
    rw [if_neg hnot] at hclose
    cases hclose
    obtain ⟨_, hguard, hopen⟩ := bind_eq_ok.mp hopen
    obtain ⟨hout, hlength⟩ := not_or.mp (failIf_eq_ok.mp hguard)
    have hlength := Nat.not_lt.mp hlength
    rw [getUint16_eq hlength, ok_bind] at hopen
    obtain ⟨_, hglobals, hopen⟩ := bind_eq_ok.mp hopen
    obtain ⟨_, htype, hopen⟩ := bind_eq_ok.mp hopen
    cases hopen
    refine ⟨.opens hkind (Bool.eq_false_iff.mpr hout) hlength fun hfresh => ?_,
      fun _ => failIf_eq_ok.mp htype⟩
    exact Decidable.not_not.mp fun hne => failIf_eq_ok.mp hglobals ⟨hfresh, hne⟩
  · rename_i hkind
    obtain ⟨_, hin, hopen⟩ := bind_eq_ok.mp hopen
    cases hopen
    have hin := Bool.eq_true_of_not_eq_false (failIf_eq_ok.mp hin)
    refine ⟨?_, fun h => absurd h hkind⟩
    split at hclose
    · obtain ⟨_, hpayload, hclose⟩ := bind_eq_ok.mp hclose
      cases hclose
      exact .closes ‹_› hin
        (List.length_eq_zero_iff.mp (Decidable.not_not.mp (failIf_eq_ok.mp hpayload)))
    · cases hclose
      exact .goesOn ⟨hkind, ‹_›⟩ hin

/-- Padding is zeros to the end, behind a substream. -/
theorem skipPadding_eq_ok (h : skipPadding stream s = .ok s') :
    s' = s ∨ (s' = { s with stopped := true } ∧ s.inSubstream = false ∧
      ∀ b ∈ stream.drop s.offset, b = 0) := by
  unfold skipPadding at h
  split at h
  · rename_i hzeros
    obtain ⟨_, hall, h⟩ := bind_eq_ok.mp h
    refine Or.inr ⟨(Except.ok.inj h).symm, hzeros.1, fun b hb => ?_⟩
    exact of_decide_eq_true (List.all_eq_true.mp (Decidable.not_not.mp (failIf_eq_ok.mp hall)) b hb)
  · exact Or.inl (Except.ok.inj h).symm

/-- **What a pass finds**: a record at the offset, which is not refused, and perhaps the padding
behind it. -/
theorem nextRecord_cases (h : nextRecord stream s = .ok s') :
    ∃ r s₁, s.offset + r.write.length ≤ stream.length ∧
      slice stream s.offset (s.offset + r.write.length) = r.write ∧ ¬Refused r ∧ Follows s r s₁ ∧
      (s' = { s₁ with offset := s.offset + r.write.length } ∨
        (s' = { s₁ with offset := s.offset + r.write.length, stopped := true } ∧
          s₁.inSubstream = false ∧ ∀ b ∈ stream.drop (s.offset + r.write.length), b = 0)) := by
  obtain ⟨view, hview, h⟩ := bind_eq_ok.mp h
  have hview := orThrow_eq_ok.mp hview
  split at hview
  · rename_i hle
    cases hview
    rw [getUint16_view hle (by omega), ok_bind, getUint16_view hle (by omega), ok_bind,
      Nat.add_zero] at h
    obtain ⟨_, -, h⟩ := bind_eq_ok.mp h
    obtain ⟨_, hinside, h⟩ := bind_eq_ok.mp h
    have hinside := Nat.not_lt.mp (failIf_eq_ok.mp hinside)
    rw [boundedView_eq hinside, ok_bind] at h
    obtain ⟨s₁, hopen, h⟩ := bind_eq_ok.mp h
    obtain ⟨_, hcheck, h⟩ := bind_eq_ok.mp h
    obtain ⟨s₂, hclose, hpadding⟩ := bind_eq_ok.mp h
    have hwrite := write_recordAt hinside
    have hlength : (recordAt stream s.offset hinside).write.length =
        4 + uint16 stream (s.offset + 2) := by
      rw [hwrite, length_slice hinside]
      omega
    obtain ⟨hfollows, htype⟩ := follows_of_ok (r := recordAt stream s.offset hinside) hopen hclose
    obtain ⟨hencrypted, hmacro, hobjects, hsheet⟩ := checkRecord_eq_ok hcheck
    refine ⟨recordAt stream s.offset hinside, s₂, ?_, ?_, ?_, hfollows, ?_⟩
    · omega
    · rw [hlength, ← Nat.add_assoc, hwrite]
    · rintro (hkind | hkind | hkind | ⟨hkind, b, hb, hvalue⟩ | ⟨hkind, hvalue⟩)
      · exact hencrypted hkind
      · exact hmacro hkind
      · exact hobjects hkind
      · exact hsheet hkind b hb hvalue
      · exact htype hkind hvalue
    · rw [hlength, ← Nat.add_assoc]
      rw [hfollows.offset] at hpadding
      exact skipPadding_eq_ok hpadding
  · exact absurd hview nofun

theorem contained_nextRecord (h : s.offset + 4 ≤ stream.length) :
    Contained (nextRecord stream s) := by
  have hview : dataView stream s.offset 4 = .ok (slice stream s.offset (s.offset + 4)) := by
    rw [dataView, if_pos h]
    rfl
  rw [nextRecord, hview, ok_bind, getUint16_view h (by omega), ok_bind, getUint16_view h (by omega),
    ok_bind]
  exact contained_bind contained_failIf fun _ _ => contained_bind contained_failIf fun _ _ =>
    contained_bind contained_boundedView fun _ _ =>
    contained_bind contained_openSubstream fun _ _ =>
      contained_bind contained_checkRecord fun _ _ =>
    contained_bind contained_closeSubstream fun _ _ => contained_skipPadding

/-- Every pass goes over a record. -/
theorem contained_checkRecords : Contained (checkRecords stream) := by
  refine contained_bind (fun e h => ?_) fun _ _ => contained_failIf
  refine whileLoop_error (fun _ : Records => True) (fun s => stream.length - s.offset)
    (fun s s' _ hrun hpass => ⟨trivial, ?_⟩) (fun s e _ hrun hpass => ?_) trivial
    (Nat.lt_succ_of_le (Nat.sub_le _ _)) h
  · obtain ⟨r, s₁, hle, -, -, -, hs⟩ := nextRecord_cases hpass
    have hlength := length_write r
    have hoffset : s'.offset = s.offset + r.write.length := by
      rcases hs with rfl | ⟨rfl, -⟩ <;> rfl
    omega
  · simp only [Bool.and_eq_true, decide_eq_true_eq] at hrun
    exact contained_nextRecord hrun.2 e hpass

/-! ### What is behind the loop -/

/-- A substream that is not closed. -/
def Open (current : List Record) : Prop :=
  ∃ opening more, current = opening :: more ∧ opening.kind = BOF ∧ 4 ≤ opening.payload.length ∧
    ∀ r ∈ more, r.kind ≠ BOF ∧ r.kind ≠ EOF

/-- The records behind the loop are substreams and perhaps one that is open. -/
structure Progress (stream : List UInt8) (s : Records) (done : List Substream)
    (current : List Record) : Prop where
  le : s.offset ≤ stream.length
  front : stream.take s.offset = write (done.flatMap Substream.all ++ current)
  kept : ∀ r ∈ done.flatMap Substream.all ++ current, ¬Refused r
  outside : s.inSubstream = false → current = []
  inside : s.inSubstream = true → Open current
  fresh : s.sawGlobals = false → done.flatMap Substream.all ++ current = []
  globals : s.sawGlobals = true →
    ∃ r ∈ (done.flatMap Substream.all ++ current).head?, r.type = 0x0005
  closed : s.sawEof = true → done ≠ []
  padding : s.stopped = true → s.inSubstream = false ∧ ∀ b ∈ stream.drop s.offset, b = 0

/-- The substream that a record closes. -/
theorem Open.close (h : Open current) (hkind : r.kind = EOF) (hpayload : r.payload = []) :
    ∃ substream : Substream, substream.all = current ++ [r] := by
  obtain ⟨opening, more, rfl, hopening, hlength, hinside⟩ := h
  exact ⟨⟨opening, more, r, hopening, hlength, hkind, hpayload, hinside⟩, rfl⟩

/-- A record in a substream goes to its end. -/
theorem Open.concat (h : Open current) (hkind : r.kind ≠ BOF ∧ r.kind ≠ EOF) :
    Open (current ++ [r]) := by
  obtain ⟨opening, more, rfl, hopening, hlength, hinside⟩ := h
  refine ⟨opening, more ++ [r], rfl, hopening, hlength, fun r' hr' => ?_⟩
  rcases List.mem_append.mp hr' with hr' | hr'
  · exact hinside r' hr'
  · exact List.mem_singleton.mp hr' ▸ hkind

theorem Open.ne_nil (h : Open current) : current ≠ [] := by
  obtain ⟨opening, more, rfl, -⟩ := h
  exact List.cons_ne_nil _ _

/-- A record more, in the substreams that its kind makes of it. -/
theorem Follows.progress {s₁ : Records} (h : Follows s r s₁) (hs : Progress stream s done current) :
    ∃ done' current', done'.flatMap Substream.all ++ current' =
        (done.flatMap Substream.all ++ current) ++ [r] ∧
      (s₁.inSubstream = false → current' = []) ∧ (s₁.inSubstream = true → Open current') ∧
      s₁.sawGlobals = true ∧ (s₁.sawEof = true → done' ≠ []) ∧
      (s.sawGlobals = false → r.type = 0x0005) := by
  have hin : s.inSubstream = true → s.sawGlobals = true := fun hin => by
    by_contra hfresh
    have hnil := hs.fresh (Bool.eq_false_iff.mpr hfresh)
    exact (hs.inside hin).ne_nil (List.append_eq_nil_iff.mp hnil).2
  cases h with
  | opens hkind hout hlength hglobals =>
    refine ⟨done, [r], ?_, fun h => absurd h nofun,
      fun _ => ⟨r, [], rfl, hkind, hlength, nofun⟩, rfl, hs.closed,
      hglobals⟩
    rw [hs.outside hout, List.append_nil]
  | closes hkind hopen hpayload =>
    obtain ⟨substream, hall⟩ := (hs.inside hopen).close hkind hpayload
    refine ⟨done ++ [substream], [], ?_, fun _ => rfl, fun h => absurd h nofun, hin hopen,
      fun _ => List.append_ne_nil_of_right_ne_nil _ (List.cons_ne_nil _ _),
      fun hfresh => absurd (hin hopen) (by rw [hfresh]; exact Bool.false_ne_true)⟩
    rw [List.flatMap_append, List.flatMap_singleton, hall, List.append_nil, List.append_assoc]
  | goesOn hkind hopen =>
    refine ⟨done, current ++ [r], (List.append_assoc _ _ _).symm,
      fun h => absurd hopen (by rw [h]; exact Bool.false_ne_true),
      fun _ => (hs.inside hopen).concat hkind, hin hopen, hs.closed,
      fun hfresh => absurd (hin hopen) (by rw [hfresh]; exact Bool.false_ne_true)⟩

/-- A pass keeps what is behind the loop in substreams. -/
theorem nextRecord_progress (hs : Progress stream s done current) (hgoing : s.stopped = false)
    (h : nextRecord stream s = .ok s') : ∃ done' current', Progress stream s' done' current' := by
  obtain ⟨r, s₁, hle, hslice, hkept, hfollows, hs'⟩ := nextRecord_cases h
  obtain ⟨done', current', hall, hout, hin, hsaw, hclosed, htype⟩ := hfollows.progress hs
  have hstopped : s₁.stopped = false := by
    cases hfollows <;> exact hgoing
  have hfront : stream.take (s.offset + r.write.length) =
      write (done'.flatMap Substream.all ++ current') := by
    have hwrite : write [r] = r.write := by
      rw [write, List.flatMap_singleton]
    rw [← take_slice (Nat.le_add_right _ _), hs.front, hslice, hall,
      write_append (_ ++ _) [r], hwrite]
  have hrecords : ∀ r' ∈ done'.flatMap Substream.all ++ current', ¬Refused r' := by
    intro r' hr'
    rw [hall] at hr'
    rcases List.mem_append.mp hr' with hr' | hr'
    · exact hs.kept r' hr'
    · exact List.mem_singleton.mp hr' ▸ hkept
  have hglobals : ∃ r' ∈ (done'.flatMap Substream.all ++ current').head?, r'.type = 0x0005 := by
    rw [hall]
    cases hold : s.sawGlobals with
    | false => exact ⟨r, by rw [hs.fresh hold]; rfl, htype hold⟩
    | true =>
      obtain ⟨first, hfirst, hfive⟩ := hs.globals hold
      exact ⟨first, by rw [List.head?_append, Option.mem_def.mp hfirst]; rfl, hfive⟩
  have hfresh : s₁.sawGlobals = false → done'.flatMap Substream.all ++ current' = [] := fun h =>
    absurd hsaw (by rw [h]; exact Bool.false_ne_true)
  refine ⟨done', current', ?_⟩
  rcases hs' with rfl | ⟨rfl, hclosed', hzeros⟩
  · exact ⟨hle, hfront, hrecords, hout, hin, hfresh, fun _ => hglobals, hclosed,
      fun h => absurd h (by rw [hstopped]; exact Bool.false_ne_true)⟩
  · exact ⟨hle, hfront, hrecords, hout, hin, hfresh, fun _ => hglobals, hclosed,
      fun _ => ⟨hclosed', hzeros⟩⟩

/-- The records of the stream, from its first byte on, are substreams of which the first is that of
the workbook globals, and none of them is refused. Fewer than four bytes or zeros follow them. -/
structure Bracketed (stream : List UInt8) (substreams : List Substream) (tail : List UInt8) :
    Prop where
  records : stream = write (substreams.flatMap Substream.all) ++ tail
  tail : tail.length < 4 ∨ ∀ b ∈ tail, b = 0
  globals : ∃ first rest, substreams = first :: rest ∧ first.opening.type = 0x0005
  kept : ∀ substream ∈ substreams, ∀ r ∈ substream.all, ¬Refused r

/-- **An accepted stream** is substreams without a refused record. -/
theorem checkRecords_bracketed {u : Unit} (h : checkRecords stream = .ok u) :
    ∃ substreams tail, Bracketed stream substreams tail := by
  obtain ⟨s, hloop, hend⟩ := bind_eq_ok.mp h
  have hstart : Progress stream ⟨0, false, false, false, false⟩ [] [] :=
    ⟨Nat.zero_le _, rfl, nofun, fun _ => rfl, nofun, fun _ => rfl,
      nofun, nofun, nofun⟩
  obtain ⟨⟨done, current, hs⟩, hstop⟩ := whileLoop_ok
    (fun s => ∃ done current, Progress stream s done current)
    (fun s s' ⟨done, current, hs⟩ hrun hpass => nextRecord_progress hs (by
      simp only [Bool.and_eq_true, Bool.not_eq_true'] at hrun
      exact hrun.1) hpass) ⟨[], [], hstart⟩ hloop
  have hend := failIf_eq_ok.mp hend
  have hglobals : s.sawGlobals = true := Bool.eq_true_of_not_eq_false (not_or.mp hend).1
  have heof : s.sawEof = true := Bool.eq_true_of_not_eq_false (not_or.mp (not_or.mp hend).2).1
  have hout : s.inSubstream = false := Bool.eq_false_iff.mpr (not_or.mp (not_or.mp hend).2).2
  obtain rfl := hs.outside hout
  have hfront := hs.front
  have hkept := hs.kept
  obtain ⟨r, hfirst, hfive⟩ := hs.globals hglobals
  rw [List.append_nil] at hfront hkept hfirst
  refine ⟨done, stream.drop s.offset, ?_, ?_, ?_, fun substream hmem r hr =>
    hkept r (List.mem_flatMap.mpr ⟨substream, hmem, hr⟩)⟩
  · rw [← hfront, List.take_append_drop]
  · cases hstopped : s.stopped with
    | true => exact Or.inr (hs.padding hstopped).2
    | false =>
      rw [hstopped, Bool.not_false, Bool.true_and, decide_eq_false_iff_not] at hstop
      rw [List.length_drop]
      exact Or.inl (by omega)
  · obtain ⟨first, rest, rfl⟩ := List.exists_cons_of_ne_nil (hs.closed heof)
    obtain rfl : first.opening = r := Option.some.inj hfirst
    exact ⟨first, rest, rfl, hfive⟩

end MailPortal.Documents
