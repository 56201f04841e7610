import MailPortal.Lib.Bytes
import MailPortal.Lib.Loop

/-!
# Reading Untrusted Documents

The readers of containers refuse what they do not accept with a `SemanticAttachmentExtractionError`.
The model also has the two ways in which a reader could go wrong otherwise: a read outside the
array, and a loop that does not end. A reader that is `Contained` does neither.
-/

namespace MailPortal.Documents

open Bytes Failure

variable {length : ℕ}

/-- `SemanticAttachmentExtractionFailure` -/
inductive SemanticAttachmentExtractionFailure
  | unsupported_format
  | size_mismatch
  | size_exceeded
  | invalid_utf8
  | unsafe_text
  | invalid_container
  | encrypted_document
  | active_content
  | decompression_exceeded
  | conversion_rejected
  | empty_output
  | output_exceeded
  deriving DecidableEq

/-- How a reader ends that does not return. -/
inductive Thrown
  | extraction (code : SemanticAttachmentExtractionFailure)
  | outside
  | stuck
  deriving DecidableEq

abbrev Reader (α : Type) : Type := Except Thrown α

/-- `failure(code)` -/
def failure {α : Type} (code : SemanticAttachmentExtractionFailure) : Reader α :=
  .error (.extraction code)

/-- `if (test) failure(code)` -/
def failIf (test : Prop) [Decidable test] (code : SemanticAttachmentExtractionFailure) :
    Reader Unit :=
  if test then failure code else .ok ()

/-- `bytes[offset]!` -/
def byteAt (bytes : List UInt8) (offset : ℕ) : Reader ℕ :=
  orThrow (bytes[offset]?.map UInt8.toNat) .outside

/-- `getUint16(offset, true)` -/
def getUint16 (view : List UInt8) (offset : ℕ) : Reader ℕ :=
  orThrow (if offset + 2 ≤ view.length then some (uint16 view offset) else none) .outside

/-- `getUint32(offset, true)` -/
def getUint32 (view : List UInt8) (offset : ℕ) : Reader ℕ :=
  orThrow (if offset + 4 ≤ view.length then some (uint32 view offset) else none) .outside

/-- `boundedView`, of an offset and a length that are sums of numbers of four bytes at most and so
safe integers. -/
def boundedView (bytes : List UInt8) (offset length : ℕ) : Reader (List UInt8) := do
  failIf (offset + length > bytes.length) .invalid_container
  return slice bytes offset (offset + length)

/-- `while (offset < bytes.byteLength)`, over a state that has the offset. Every pass is to move on,
so that there are no more passes than bytes. -/
def scan {σ : Type} (offset : σ → ℕ) (bytes : List UInt8) (body : σ → Reader σ) :
    ℕ → σ → Reader σ :=
  Loop.whileLoop .stuck (fun s => offset s < bytes.length) body

/-- `Number.MAX_SAFE_INTEGER` -/
def MAX_SAFE_INTEGER : ℕ := 2 ^ 53 - 1

/-- `ZIP_MAX_UNCOMPRESSED_BYTES` -/
def ZIP_MAX_UNCOMPRESSED_BYTES : ℕ := 32 * 1024 * 1024

/-- `ZIP_MAX_RATIO` -/
def ZIP_MAX_RATIO : ℕ := 100

/-- The error is a `SemanticAttachmentExtractionError`. -/
def Extraction (e : Thrown) : Prop := ∃ code, e = .extraction code

/-- The reader returns or refuses. -/
def Contained {α : Type} (reader : Reader α) : Prop := ∀ e, reader = .error e → Extraction e

section Rules

variable {α β : Type} {code : SemanticAttachmentExtractionFailure}

theorem contained_ok (a : α) : Contained (.ok a : Reader α) := fun _ h => nomatch h

theorem contained_failure : Contained (failure code : Reader α) :=
  fun _ h => ⟨code, (Except.error.inj h).symm⟩

theorem contained_failIf {test : Prop} [Decidable test] : Contained (failIf test code) := by
  unfold failIf
  split
  · exact contained_failure
  · exact contained_ok ()

theorem contained_orThrow {found : Option α} :
    Contained (orThrow found (.extraction code)) := by
  cases found with
  | none => exact contained_failure
  | some a => exact contained_ok a

theorem contained_bind {x : Reader α} {f : α → Reader β} (hx : Contained x)
    (hf : ∀ a, x = .ok a → Contained (f a)) : Contained (x >>= f) := by
  cases x with
  | error e =>
    intro e' h
    rw [error_bind] at h
    exact Except.error.inj h ▸ hx e rfl
  | ok a => exact hf a rfl

theorem contained_ite {condition : Prop} [Decidable condition] {x y : Reader α}
    (hx : condition → Contained x) (hy : ¬condition → Contained y) :
    Contained (if condition then x else y) := by
  split
  · exact hx ‹_›
  · exact hy ‹_›

theorem failIf_eq_ok {test : Prop} [Decidable test] {u : Unit} :
    failIf test code = .ok u ↔ ¬test := by
  unfold failIf
  split
  · exact ⟨nofun, fun h => absurd ‹_› h⟩
  · exact ⟨fun _ => ‹_›, fun _ => rfl⟩

/-- A check that is passed. -/
theorem failIf_bind {test : Prop} [Decidable test] (h : ¬test) (f : Unit → Reader α) :
    (failIf test code >>= f) = f () := by
  rw [failIf_eq_ok.mpr h, ok_bind]

/-- A check that is not. -/
theorem failIf_bind_of {test : Prop} [Decidable test] (h : test) (f : Unit → Reader α) :
    (failIf test code >>= f) = failure code := by
  rw [failIf, if_pos h]
  rfl

end Rules

/-! ### Loops over the bytes -/

section Scan

open Loop

variable {σ : Type} (offset : σ → ℕ) {bytes : List UInt8} {body : σ → Reader σ} {passes : ℕ}
  {s s' : σ}

theorem scan_done (h : bytes.length ≤ offset s) : scan offset bytes body passes s = .ok s :=
  whileLoop_done (decide_eq_false (Nat.not_lt.mpr h))

theorem scan_step (h : offset s < bytes.length) (hbody : body s = .ok s') :
    scan offset bytes body (passes + 1) s = scan offset bytes body passes s' :=
  whileLoop_step (decide_eq_true h) hbody

/-- A body that fails ends the loop. -/
theorem scan_fail {e : Thrown} (h : offset s < bytes.length) (hbody : body s = .error e) :
    scan offset bytes body (passes + 1) s = .error e :=
  whileLoop_fail (decide_eq_true h) hbody

/-- A loop that returns is at its end, or goes on after a pass. -/
theorem scan_eq_ok (h : scan offset bytes body passes s = .ok s') :
    (bytes.length ≤ offset s ∧ s' = s) ∨ ∃ passes' s₁, passes = passes' + 1 ∧
      offset s < bytes.length ∧ body s = .ok s₁ ∧ scan offset bytes body passes' s₁ = .ok s' := by
  obtain ⟨hrun, hs⟩ | ⟨passes', s₁, hpasses, hrun, hbody, hrest⟩ := whileLoop_eq_ok h
  · exact Or.inl ⟨Nat.not_lt.mp (of_decide_eq_false hrun), hs⟩
  · exact Or.inr ⟨passes', s₁, hpasses, of_decide_eq_true hrun, hbody, hrest⟩

/-- A loop whose body moves on and is contained is contained. -/
theorem contained_scan (Inv : σ → Prop) (hs : Inv s) (hpasses : bytes.length - offset s < passes)
    (hbody : ∀ s s', Inv s → offset s < bytes.length → body s = .ok s' →
      Inv s' ∧ offset s < offset s')
    (hcontained : ∀ s, Inv s → offset s < bytes.length → Contained (body s)) :
    Contained (scan offset bytes body passes s) := by
  refine fun e h => whileLoop_error Inv (fun s => bytes.length - offset s)
    (fun s s' hs hrun hpass => ?_)
    (fun s e hs hrun => hcontained s hs (of_decide_eq_true hrun) e) hs hpasses h
  have hlt := of_decide_eq_true hrun
  obtain ⟨hinv, hmoves⟩ := hbody s s' hs hlt hpass
  exact ⟨hinv, by omega⟩

end Scan

/-! ### Reading where there is something -/

variable {bytes rest : List UInt8} {offset : ℕ}

theorem byteAt_head {b : UInt8} (h : At bytes offset (b :: rest)) :
    byteAt bytes offset = .ok b.toNat := by
  rw [byteAt, h.head]
  rfl

theorem contained_byteAt (h : offset < bytes.length) : Contained (byteAt bytes offset) := by
  rw [byteAt, List.getElem?_eq_getElem h]
  exact contained_ok _

theorem getUint32_front {xs : List UInt8} (h : At bytes offset (xs ++ rest)) (hxs : xs.length = 4) :
    getUint32 bytes offset = .ok (littleEndian xs) := by
  have hlength := h.length
  rw [List.length_append] at hlength
  rw [getUint32, if_pos (by omega), h.uint32_front hxs]
  rfl

theorem contained_getUint16 (h : offset + 2 ≤ bytes.length) :
    Contained (getUint16 bytes offset) := by
  rw [getUint16, if_pos h]
  exact contained_ok _

theorem contained_getUint32 (h : offset + 4 ≤ bytes.length) :
    Contained (getUint32 bytes offset) := by
  rw [getUint32, if_pos h]
  exact contained_ok _

theorem boundedView_eq (h : offset + length ≤ bytes.length) :
    boundedView bytes offset length = .ok (slice bytes offset (offset + length)) :=
  failIf_bind (Nat.not_lt.mpr h) _

theorem boundedView_eq_ok {view : List UInt8} :
    boundedView bytes offset length = .ok view ↔
      offset + length ≤ bytes.length ∧ slice bytes offset (offset + length) = view := by
  rw [boundedView, bind_eq_ok]
  constructor
  · rintro ⟨_, hlength, hview⟩
    exact ⟨Nat.not_lt.mp (failIf_eq_ok.mp hlength), Except.ok.inj hview⟩
  · rintro ⟨hlength, rfl⟩
    exact ⟨(), failIf_eq_ok.mpr (Nat.not_lt.mpr hlength), rfl⟩

theorem contained_boundedView : Contained (boundedView bytes offset length) :=
  contained_bind contained_failIf fun _ _ => contained_ok _

/-- Reading in a view is reading in the bytes. -/
theorem getUint16_view {k : ℕ} (h : offset + length ≤ bytes.length) (hk : k + 2 ≤ length) :
    getUint16 (slice bytes offset (offset + length)) k = .ok (uint16 bytes (offset + k)) := by
  rw [getUint16, if_pos (by rw [length_slice h]; omega), uint16, slice_slice (by omega)]
  rfl

theorem getUint32_view {k : ℕ} (h : offset + length ≤ bytes.length) (hk : k + 4 ≤ length) :
    getUint32 (slice bytes offset (offset + length)) k = .ok (uint32 bytes (offset + k)) := by
  rw [getUint32, if_pos (by rw [length_slice h]; omega), uint32, slice_slice (by omega)]
  rfl

/-- Reading is of what is at the offset. -/
theorem byteAt_eq_ok {n : ℕ} (h : At bytes offset rest) (hn : byteAt bytes offset = .ok n) :
    ∃ b rest', rest = b :: rest' ∧ n = b.toNat := by
  rw [byteAt, orThrow_eq_ok, Option.map_eq_some_iff] at hn
  obtain ⟨b, hb, rfl⟩ := hn
  obtain ⟨hlt, -⟩ := List.getElem?_eq_some_iff.mp hb
  obtain ⟨b', rest', rfl⟩ := h.exists_head hlt
  rw [h.head] at hb
  exact ⟨b', rest', rfl, by rw [Option.some.inj hb]⟩

end MailPortal.Documents
