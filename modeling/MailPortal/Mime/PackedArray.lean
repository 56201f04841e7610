import Mathlib.Algebra.Group.Int.Defs
import Mathlib.Algebra.Group.Nat.Defs
import MailPortal.Lib.Runs
import MailPortal.Mime.Padding

/-!
# The Array behind the Packed Padding

`PackedPadding` keeps tabs as bits of an array that grows, and `clear` resets the length alone. So
a bit that a tab has set stays set, and a space that is pushed where an earlier run had a tab comes
out as a tab.

Main results:

* `Tracks.step`: the bits that are set are those of all tabs so far.
* `drains_faithful`: the runs in which every drain writes what was pushed.
* `drains_represent`: below `2 ^ 31` places the array is a `PackedPadding`.
-/

namespace MailPortal.Mime

open Lines

variable {q : PackedPadding}

/-! ### The array -/

/-- The 32 bits with a sign that the shifts of the language work on. -/
def toInt32 (n : ℕ) : ℤ :=
  let unsigned : ℤ := (n : ℤ) % 2 ^ 32
  if unsigned < 2 ^ 31 then unsigned else unsigned - 2 ^ 32

/-- `n >> 3` -/
def byteIndex (n : ℕ) : ℤ := toInt32 n / 8

/-- `1 << (n & 7)` -/
def mask (n : ℕ) : UInt8 := 1 <<< UInt8.ofNat (n % 8)

/-- Blanks as bits, and how many. -/
structure PackedArray where
  bits : List UInt8
  length : ℕ

variable {p : PackedArray}

namespace PackedArray

def new : PackedArray := ⟨[], 0⟩

/-- The array, grown when the bit to come has no byte. -/
def grow (p : PackedArray) : List UInt8 :=
  if byteIndex p.length ≥ p.bits.length then
    let size := max (max (byteIndex p.length + 1).toNat (p.bits.length * 2)) 64
    -- `grown.set` copies the old bytes, the others are zero
    p.bits ++ List.replicate (size - p.bits.length) 0
  else p.bits

/-- `bits[index] |= mask`, which does nothing outside the array. -/
def setBit (bits : List UInt8) (n : ℕ) : List UInt8 :=
  if byteIndex n < 0 then bits else bits.modify (byteIndex n).toNat (· ||| mask n)

def push (p : PackedArray) (byte : UInt8) : PackedArray where
  bits := if byte = TAB then setBit p.grow p.length else p.grow
  length := p.length + 1

def clear (p : PackedArray) : PackedArray := { p with length := 0 }

/-- `(bits[n >> 3] & (1 << (n & 7))) !== 0`; outside the array there is nothing. -/
def readBit (bits : List UInt8) (n : ℕ) : Bool :=
  if byteIndex n < 0 then false
  else (bits[(byteIndex n).toNat]?).any fun byte => byte &&& mask n ≠ 0

def OUTPUT_CHUNK_BYTES : ℕ := 64 * 1024

/-- The chunks that `drain` writes from an offset on. -/
def chunksFrom (p : PackedArray) (offset : ℕ) : List (List UInt8) :=
  if offset < p.length then
    let length := min OUTPUT_CHUNK_BYTES (p.length - offset)
    (List.range length).map (fun index => if readBit p.bits (offset + index) then TAB else SP) ::
      chunksFrom p (offset + length)
  else []
termination_by p.length - offset
decreasing_by
  have hpos : 0 < OUTPUT_CHUNK_BYTES := by decide
  omega

/-- What `drain` writes, before it clears the padding. -/
def drain (p : PackedArray) : List (List UInt8) := p.chunksFrom 0

end PackedArray

/-! ### Runs -/

inductive Blank
  | space
  | tab
  deriving DecidableEq

def Blank.byte : Blank → UInt8
  | space => SP
  | tab => TAB

/-- What the splitter does to the array. -/
inductive Use
  | push (blank : Blank)
  | clear
  | drain
  deriving DecidableEq

/-- The padding, and what each drain wrote. -/
structure Drained where
  padding : PackedArray
  written : List (List (List UInt8))

variable {s : Drained}

def Drained.step (s : Drained) : Use → Drained
  | .push blank => { s with padding := s.padding.push blank.byte }
  | .clear => { s with padding := s.padding.clear }
  | .drain => ⟨s.padding.clear, s.written ++ [s.padding.drain]⟩

/-- What was pushed since the last clear or drain, what each drain is to write, and where tabs were
pushed so far. -/
structure Pushed where
  current : List Blank
  expected : List (List UInt8)
  tabs : List ℕ

variable {t : Pushed}

def Pushed.step (s : Pushed) : Use → Pushed
  | .push blank =>
    { s with
      current := s.current ++ [blank]
      tabs := if blank = .tab then s.tabs ++ [s.current.length] else s.tabs }
  | .clear => { s with current := [] }
  | .drain => { s with current := [], expected := s.expected ++ [s.current.map Blank.byte] }

/-- **No space stands where an earlier tab stood**, and the tabs have a bit. Places are counted in
32 bits with a sign, so that this is about places themselves when there are no more than
`2 ^ 31`. -/
def Undisturbed (s : Pushed) : Prop :=
  ∀ i, (s.current[i]? = some .space → 0 ≤ toInt32 i → ∀ place ∈ s.tabs, toInt32 place ≠ toInt32 i) ∧
    (s.current[i]? = some .tab → 0 ≤ toInt32 i)

/-! ### What a push and a read do -/

/-- A place in 32 bits is its byte and its bit. -/
theorem toInt32_eq_iff (m n : ℕ) :
    toInt32 m = toInt32 n ↔ byteIndex m = byteIndex n ∧ m % 8 = n % 8 := by
  unfold byteIndex toInt32
  dsimp only
  omega

theorem byteIndex_nonneg (n : ℕ) : 0 ≤ byteIndex n ↔ 0 ≤ toInt32 n := by
  unfold byteIndex
  omega

theorem toInt32_of_lt {n : ℕ} (h : n < 2 ^ 31) : toInt32 n = n := by
  unfold toInt32
  dsimp only
  omega

/-- Masks meet when they are for the same bit. -/
theorem mask_and_mask (m n : ℕ) : mask m &&& mask n = 0 ↔ m % 8 ≠ n % 8 := by
  have hall : ∀ i < 8, ∀ j < 8,
      ((1 : UInt8) <<< UInt8.ofNat i) &&& (1 <<< UInt8.ofNat j) = 0 ↔ i ≠ j := by decide
  exact hall (m % 8) (Nat.mod_lt m (by omega)) (n % 8) (Nat.mod_lt n (by omega))

theorem or_and_mask (a b c : UInt8) : (a ||| b) &&& c = (a &&& c) ||| (b &&& c) :=
  UInt8.toBitVec_inj.mp BitVec.and_or_distrib_right

namespace PackedArray

/-- Growing changes no bit. -/
theorem readBit_grow (p : PackedArray) (n : ℕ) : readBit p.grow n = readBit p.bits n := by
  unfold grow
  split
  · unfold readBit
    split
    · rfl
    · rw [List.getElem?_append]
      split
      · rfl
      · rename_i hindex
        rw [List.getElem?_eq_none (Nat.le_of_not_lt hindex), List.getElem?_replicate]
        split <;> simp
  · rfl

/-- Behind `grow` the bit to come has a byte, when its place has any. -/
theorem lt_grow_length (p : PackedArray) (h : 0 ≤ byteIndex p.length) :
    (byteIndex p.length).toNat < p.grow.length := by
  unfold grow
  split
  · simp only [List.length_append, List.length_replicate]
    omega
  · omega

/-- Setting a bit adds the places with that bit. -/
theorem readBit_setBit {bits : List UInt8} {n : ℕ}
    (h : 0 ≤ byteIndex n → (byteIndex n).toNat < bits.length) (m : ℕ) :
    readBit (setBit bits n) m = true ↔
      readBit bits m = true ∨ 0 ≤ toInt32 m ∧ toInt32 n = toInt32 m := by
  unfold readBit setBit
  by_cases hn : byteIndex n < 0
  · rw [if_pos hn, toInt32_eq_iff, ← byteIndex_nonneg]
    have hno : ¬ (0 ≤ byteIndex m ∧ byteIndex n = byteIndex m ∧ n % 8 = m % 8) := by omega
    simp only [hno, or_false]
  · rw [if_neg hn]
    by_cases hm : byteIndex m < 0
    · have hno : ¬ 0 ≤ toInt32 m := by
        rw [← byteIndex_nonneg]
        omega
      simp [hm, hno]
    · rw [if_neg hm, if_neg hm, toInt32_eq_iff, ← byteIndex_nonneg, List.getElem?_modify]
      by_cases hbyte : byteIndex n = byteIndex m
      · have hlt : (byteIndex m).toNat < bits.length := hbyte ▸ h (by omega)
        rw [hbyte, List.getElem?_eq_getElem hlt]
        simp only [if_pos, Option.map_eq_map, Option.map_some, Option.any_some,
          decide_eq_true_eq, true_and, ne_eq]
        rw [or_and_mask, UInt8.or_eq_zero_iff, mask_and_mask]
        have hm' : 0 ≤ byteIndex m := by omega
        rw [not_and_or, not_not]
        simp only [hm', true_and]
      · have hindex : (byteIndex n).toNat ≠ (byteIndex m).toNat := by omega
        simp [hindex, hbyte]

/-- What a drain writes is the bits below the length. -/
theorem drain_flatten (p : PackedArray) :
    p.drain.flatten = (List.range p.length).map fun i => if readBit p.bits i then TAB else SP := by
  suffices hfrom : ∀ offset, offset ≤ p.length → (p.chunksFrom offset).flatten =
      ((List.range p.length).drop offset).map fun i => if readBit p.bits i then TAB else SP from
    hfrom 0 (Nat.zero_le _)
  intro offset hoffset
  fun_induction chunksFrom p offset with
  | case1 offset hlt length ih =>
      have hlength : offset + length ≤ p.length := by omega
      clear_value length
      have hchunk : (List.range length).map (offset + ·) =
          ((List.range p.length).drop offset).take length := by
        refine List.ext_getElem? fun i => ?_
        simp only [List.getElem?_map, List.getElem?_take, List.getElem?_drop]
        by_cases hi : i < length
        · rw [if_pos hi, List.getElem?_range hi, List.getElem?_range (by omega)]
          rfl
        · rw [if_neg hi, List.getElem?_eq_none (by rw [List.length_range]; omega)]
          rfl
      have hmap := congrArg (List.map fun i => if readBit p.bits i then TAB else SP) hchunk
      rw [List.map_map] at hmap
      rw [← List.take_append_drop length ((List.range p.length).drop offset), List.map_append,
        ← hmap, List.drop_drop, List.flatten_cons, ih hlength]
      simp only [Function.comp_def]
  | case2 offset hge =>
      have heq : offset = p.length := by omega
      simp [heq]

/-- A push adds the places of its bit when it is a tab. -/
theorem readBit_push (p : PackedArray) (byte : UInt8) (m : ℕ) :
    readBit (p.push byte).bits m = true ↔
      readBit p.bits m = true ∨ byte = TAB ∧ 0 ≤ toInt32 m ∧ toInt32 p.length = toInt32 m := by
  unfold push
  dsimp only
  by_cases hb : byte = TAB
  · rw [if_pos hb, readBit_setBit (lt_grow_length p), readBit_grow]
    simp only [hb, true_and]
  · rw [if_neg hb, readBit_grow]
    simp only [hb, false_and, or_false]

end PackedArray

/-! ### The packed padding of the splitter -/

/-- The array holds the bits of a packed padding, at all places that have one. -/
def Represents (p : PackedArray) (q : PackedPadding) : Prop :=
  p.length = q.length ∧ ∀ n < 2 ^ 31, PackedArray.readBit p.bits n = q.bits n

namespace Represents

theorem new : Represents PackedArray.new PackedPadding.new :=
  ⟨rfl, fun n _ => by simp [PackedArray.new, PackedPadding.new, PackedArray.readBit]⟩

theorem clear (h : Represents p q) : Represents p.clear q.clear :=
  ⟨rfl, h.2⟩

theorem push (h : Represents p q) (hlength : q.length < 2 ^ 31) (byte : UInt8) :
    Represents (p.push byte) (q.push byte) := by
  obtain ⟨heq, hbits⟩ := h
  refine ⟨by rw [PackedArray.push, PackedPadding.push, heq], fun n hn => ?_⟩
  have hplace : 0 ≤ toInt32 n ∧ toInt32 p.length = toInt32 n ↔ n = q.length := by
    rw [heq, toInt32_of_lt hn, toInt32_of_lt hlength]
    omega
  rw [Bool.eq_iff_iff, PackedArray.readBit_push, PackedPadding.push_bits, hbits n hn, hplace]

/-- Both write the same bytes. -/
theorem drain (h : Represents p q) (hlength : q.length ≤ 2 ^ 31) : p.drain.flatten = q.bytes := by
  obtain ⟨heq, hbits⟩ := h
  rw [PackedArray.drain_flatten, PackedPadding.bytes, heq]
  refine List.map_congr_left fun i hi => ?_
  rw [hbits i (Nat.lt_of_lt_of_le (List.mem_range.mp hi) hlength)]

end Represents

/-! ### What a run writes -/

/-- The padding beside what was pushed: as long, and set at the places of all tabs so far. -/
structure Tracks (s : Drained) (t : Pushed) : Prop where
  length : s.padding.length = t.current.length
  drains : s.written.length = t.expected.length
  bits : ∀ n, PackedArray.readBit s.padding.bits n = true ↔
    0 ≤ toInt32 n ∧ ∃ place ∈ t.tabs, toInt32 place = toInt32 n
  tabs : ∀ i : ℕ, t.current[i]? = some .tab → i ∈ t.tabs

theorem Blank.byte_eq_tab {blank : Blank} : blank.byte = TAB ↔ blank = .tab := by
  cases blank <;> decide

/-- A step keeps the bits those of all tabs so far. -/
theorem Tracks.step (h : Tracks s t) (u : Use) : Tracks (s.step u) (t.step u) := by
  obtain ⟨hlength, hdrains, hbits, htabs⟩ := h
  cases u with
  | clear => exact ⟨rfl, hdrains, hbits, fun i hi => by simp [Pushed.step] at hi⟩
  | drain =>
      refine ⟨rfl, ?_, hbits, fun i hi => by simp [Pushed.step] at hi⟩
      simp only [Drained.step, Pushed.step, List.length_append, hdrains, List.length_singleton]
  | push blank =>
      refine ⟨?_, hdrains, fun n => ?_, fun i hi => ?_⟩
      · simp only [Drained.step, Pushed.step, PackedArray.push, hlength, List.length_append,
          List.length_singleton]
      · simp only [Drained.step, Pushed.step]
        rw [PackedArray.readBit_push, hbits, Blank.byte_eq_tab, hlength]
        cases blank with
        | space => simp
        | tab =>
            simp only [true_and, if_pos, List.mem_append, List.mem_singleton]
            constructor
            · rintro (⟨hn, place, hplace, heq⟩ | ⟨hn, heq⟩)
              · exact ⟨hn, place, .inl hplace, heq⟩
              · exact ⟨hn, _, .inr rfl, heq⟩
            · rintro ⟨hn, place, hplace | rfl, heq⟩
              · exact .inl ⟨hn, place, hplace, heq⟩
              · exact .inr ⟨hn, heq⟩
      · simp only [Pushed.step] at hi ⊢
        rw [List.getElem?_append] at hi
        split at hi
        · split
          · exact List.mem_append_left _ (htabs i hi)
          · exact htabs i hi
        · obtain ⟨hindex, hblank⟩ := List.getElem?_eq_some_iff.mp hi
          rw [List.length_singleton] at hindex
          simp only [List.getElem_singleton] at hblank
          have heq : i = t.current.length := by omega
          rw [if_pos hblank, heq]
          exact List.mem_append_right _ (List.mem_singleton.mpr rfl)

/-- A drain writes what was pushed exactly when nothing disturbs it. -/
theorem Tracks.drain_iff (h : Tracks s t) :
    s.padding.drain.flatten = t.current.map Blank.byte ↔ Undisturbed t := by
  obtain ⟨hlength, -, hbits, htabs⟩ := h
  rw [PackedArray.drain_flatten, hlength, List.ext_getElem?_iff]
  refine forall_congr' fun i => ?_
  rw [List.getElem?_map, List.getElem?_map]
  by_cases hi : i < t.current.length
  · rw [List.getElem?_range hi, List.getElem?_eq_getElem hi]
    simp only [Option.map_some, Option.some.injEq]
    have hdiff : SP ≠ TAB := by decide
    cases hblank : t.current[i] with
    | space =>
        have hread : (if PackedArray.readBit s.padding.bits i = true then TAB else SP) = SP ↔
            ¬ (0 ≤ toInt32 i ∧ ∃ place ∈ t.tabs, toInt32 place = toInt32 i) := by
          rw [← hbits]
          split <;> simp_all [hdiff.symm]
        simp only [Blank.byte, hread]
        simp
    | tab =>
        have hplace : i ∈ t.tabs := htabs i (by rw [List.getElem?_eq_getElem hi, hblank])
        have hread : (if PackedArray.readBit s.padding.bits i = true then TAB else SP) = TAB ↔
            0 ≤ toInt32 i ∧ ∃ place ∈ t.tabs, toInt32 place = toInt32 i := by
          rw [← hbits]
          split <;> simp_all
        simp only [Blank.byte, hread]
        simp only [reduceCtorEq, false_implies, true_implies, true_and]
        exact ⟨fun hset => hset.1, fun hn => ⟨hn, i, hplace, rfl⟩⟩
  · have hnone := Nat.le_of_not_lt hi
    rw [List.getElem?_eq_none (by rwa [List.length_range]), List.getElem?_eq_none hnone]
    simp

/-- A step writes what it is to write when it is no drain or nothing disturbs it. -/
theorem Tracks.step_iff (h : Tracks s t) (u : Use) :
    (s.step u).written.map List.flatten = (t.step u).expected ↔
      s.written.map List.flatten = t.expected ∧ (u = .drain → Undisturbed t) := by
  cases u with
  | push blank => simp [Drained.step, Pushed.step]
  | clear => simp [Drained.step, Pushed.step]
  | drain =>
      have hlengths : (s.written.map List.flatten).length = t.expected.length := by
        rw [List.length_map, h.drains]
      simp only [Drained.step, Pushed.step, List.map_append, List.map_singleton, true_implies,
        ← h.drain_iff]
      constructor
      · intro heq
        obtain ⟨hbefore, hlast⟩ := List.append_inj heq hlengths
        exact ⟨hbefore, (List.cons.inj hlast).1⟩
      · rintro ⟨hbefore, hlast⟩
        rw [hbefore, hlast]

def Drained.start : Drained := ⟨PackedArray.new, []⟩

def Pushed.start : Pushed := ⟨[], [], []⟩

theorem Tracks.start : Tracks Drained.start Pushed.start :=
  ⟨rfl, rfl, fun n => by simp [Drained.start, Pushed.start, PackedArray.new, PackedArray.readBit],
    fun i hi => by simp [Pushed.start] at hi⟩

theorem Tracks.run_iff (h : Tracks s t) (uses : List Use) :
    (Runs.run Drained.step s uses).written.map List.flatten =
        (Runs.run Pushed.step t uses).expected ↔
      s.written.map List.flatten = t.expected ∧
        Runs.Along Pushed.step (fun state u => u = .drain → Undisturbed state) t uses := by
  induction uses generalizing s t with
  | nil => simp [Runs.along_nil]
  | cons u uses ih =>
      rw [Runs.run_cons, Runs.run_cons, ih (h.step u), h.step_iff, Runs.along_cons, and_assoc]

/-- **The drains write what was pushed exactly when no drain meets a space where a tab stood.** -/
theorem drains_faithful (uses : List Use) :
    (Runs.run Drained.step Drained.start uses).written.map List.flatten =
        (Runs.run Pushed.step Pushed.start uses).expected ↔
      Runs.Along Pushed.step (fun state u => u = .drain → Undisturbed state) Pushed.start uses := by
  rw [Tracks.start.run_iff]
  exact and_iff_right rfl

/-- A space behind a cleared tab is written as a tab. -/
theorem cleared_tab_drained :
    (Runs.run Drained.step Drained.start [.push .tab, .clear, .push .space, .drain]).written.map
        List.flatten = [[0x09]] ∧
      (Runs.run Pushed.step Pushed.start
        [.push .tab, .clear, .push .space, .drain]).expected = [[0x20]] := by
  refine ⟨?_, rfl⟩
  simp only [Runs.run_cons, Runs.run_nil, Drained.step, Drained.start, List.nil_append,
    List.map_singleton, PackedArray.drain_flatten]
  decide

/-- The padding of the splitter, and what each drain writes of it. -/
def packedStep (s : PackedPadding × List (List UInt8)) : Use → PackedPadding × List (List UInt8)
  | .push blank => (s.1.push blank.byte, s.2)
  | .clear => (s.1.clear, s.2)
  | .drain => (s.1.clear, s.2 ++ [s.1.bytes])

/-- **The array is the padding of the splitter** in runs with fewer than `2 ^ 31` blanks at a
time, wherever it grows. -/
theorem drains_represent {s : Drained} {q : PackedPadding × List (List UInt8)}
    (hpadding : Represents s.padding q.1) (hwritten : s.written.map List.flatten = q.2)
    (uses : List Use) (h : Runs.Along packedStep (fun q _ => q.1.length < 2 ^ 31) q uses) :
    (Runs.run Drained.step s uses).written.map List.flatten = (Runs.run packedStep q uses).2 := by
  induction uses generalizing s q with
  | nil => exact hwritten
  | cons u uses ih =>
      obtain ⟨hlength, hrest⟩ := Runs.along_cons.mp h
      rw [Runs.run_cons, Runs.run_cons]
      cases u with
      | push blank => exact ih (hpadding.push hlength blank.byte) hwritten hrest
      | clear => exact ih hpadding.clear hwritten hrest
      | drain =>
          refine ih hpadding.clear ?_ hrest
          rw [Drained.step, packedStep, List.map_append, hwritten, List.map_singleton,
            hpadding.drain hlength.le]

/-- A tab is cleared, a space takes its place, and the array is used once more after a drain: the
space is written as a tab. -/
theorem drains_represent_tab :
    (Runs.run Drained.step Drained.start
      [.push .tab, .clear, .push .space, .drain, .push .tab, .push .space, .drain]).written.map
        List.flatten = [[0x09], [0x09, 0x20]] :=
  (drains_represent (s := .start) (q := (.new, [])) Represents.new rfl _ (by decide)).trans
    (by decide)

end MailPortal.Mime
