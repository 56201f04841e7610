import MailPortal.Mime.DelimiterGrammar

/-!
# Padding and its Packed Bits

The padding of a line that may be a delimiter is kept as bits, and written from them when the
line turns out to be ordinary. The bits are set for tabs and never cleared.

Main results:

* `PackedPadding.bytes_pushAll`: what is written for padding is the padding, when no space
  meets a bit that is set.
* `Images.eq_iff`: what is written for lines is the lines exactly when no padded line has a
  space at a place where an earlier padded line had a tab (`PaddingIntact`).
-/

namespace MailPortal.Mime

open Lines

variable {p p' : PackedPadding} {pad line before after : List UInt8}
  {lines images : List (List UInt8)}

/-! ### Packed padding -/

namespace PackedPadding

/-- Push blanks. -/
def pushAll (p : PackedPadding) (pad : List UInt8) : PackedPadding := pad.foldl push p

theorem pushAll_cons (p : PackedPadding) (b : UInt8) (pad : List UInt8) :
    p.pushAll (b :: pad) = (p.push b).pushAll pad := rfl

theorem pushAll_length (p : PackedPadding) (pad : List UInt8) :
    (p.pushAll pad).length = p.length + pad.length := by
  induction pad generalizing p with
  | nil => rfl
  | cons b pad ih =>
      have hpush : (p.push b).length = p.length + 1 := rfl
      rw [pushAll_cons, ih, hpush, List.length_cons]
      omega

/-- A push sets the bit of a tab and no other. -/
theorem push_bits (p : PackedPadding) (b : UInt8) (index : ℕ) :
    (p.push b).bits index = true ↔ p.bits index = true ∨ b = TAB ∧ index = p.length := by
  rw [push]
  by_cases hb : b = TAB
  · by_cases hindex : index = p.length
    · simp [hb, hindex]
    · simp [hb, hindex]
  · simp [hb]

/-- The bits after pushes: old ones stay, and each tab sets its own. -/
theorem pushAll_bits (p : PackedPadding) (pad : List UInt8) (index : ℕ) :
    (p.pushAll pad).bits index = true ↔
      p.bits index = true ∨ ∃ j, pad[j]? = some TAB ∧ index = p.length + j := by
  induction pad generalizing p with
  | nil => simp [pushAll]
  | cons b pad ih =>
      have hpush : (p.push b).length = p.length + 1 := rfl
      rw [pushAll_cons, ih, push_bits, hpush]
      constructor
      · rintro ((hold | ⟨hb, hindex⟩) | ⟨j, hj, hindex⟩)
        · exact .inl hold
        · exact .inr ⟨0, congrArg some hb, hindex⟩
        · exact .inr ⟨j + 1, hj, by omega⟩
      · rintro (hold | ⟨j, hj, hindex⟩)
        · exact .inl (.inl hold)
        · cases j with
          | zero => exact .inl (.inr ⟨Option.some.inj hj, hindex⟩)
          | succ j => exact .inr ⟨j, hj, by omega⟩

theorem blank_cases {c : UInt8} (h : isBlankByte c = true) : c = SP ∨ c = TAB := by
  simpa [isBlankByte] using h

/-- **What is written for padding is the padding**, when no space meets a bit that is set. -/
theorem bytes_pushAll (hlength : p.length = 0) (hblank : ∀ c ∈ pad, isBlankByte c = true) :
    (p.pushAll pad).bytes = pad ↔ ∀ j, pad[j]? = some SP → p.bits j = false := by
  have hget : ∀ j, j < pad.length → (p.pushAll pad).bytes[j]? =
      some (if (p.pushAll pad).bits j then TAB else SP) := by
    intro j hj
    have hlt : j < (p.pushAll pad).length := by
      rw [pushAll_length]
      omega
    simp [bytes, hlt]
  have hbits : ∀ j, (p.pushAll pad).bits j = true ↔ p.bits j = true ∨ pad[j]? = some TAB := by
    intro j
    rw [pushAll_bits, hlength]
    simp
  constructor
  · intro heq j hj
    have hlt : j < pad.length := (List.getElem?_eq_some_iff.mp hj).1
    have hspace := hget j hlt
    rw [heq, hj] at hspace
    rw [Bool.eq_false_iff]
    intro hold
    rw [if_pos ((hbits j).mpr (.inl hold))] at hspace
    exact absurd hspace (by decide)
  · intro hclear
    refine List.ext_getElem? fun j => ?_
    by_cases hlt : j < pad.length
    · have hj : pad[j]? = some pad[j] := List.getElem?_eq_getElem hlt
      rw [hget j hlt]
      rcases blank_cases (hblank pad[j] (List.getElem_mem hlt)) with hspace | htab
      · rw [hspace] at hj
        have hfalse : ¬ (p.pushAll pad).bits j = true := by
          rw [hbits, hclear j hj, hj]
          decide
        rw [hj, if_neg hfalse]
      · rw [htab] at hj
        rw [hj, if_pos ((hbits j).mpr (.inr hj))]
    · have hbytes : (p.pushAll pad).bytes.length = pad.length := by
        simp [bytes, pushAll_length, hlength]
      rw [List.getElem?_eq_none (by omega), List.getElem?_eq_none (by omega)]

end PackedPadding

/-! ### The images of lines -/

/-- What is written for lines whose padding goes through the packed bits, one after the
other, and the packed bits in the end. -/
inductive Images (boundaries : List (List UInt8)) :
    PackedPadding → List (List UInt8) → List (List UInt8) → PackedPadding → Prop
  | nil (p : PackedPadding) : Images boundaries p [] [] p
  | cons {p p' : PackedPadding} {line before pad after : List UInt8}
      {lines images : List (List UInt8)} (hpad : LinePad boundaries line before pad after)
      (hrest : Images boundaries (p.pushAll pad).clear lines images p') :
      Images boundaries p (line :: lines) ((before ++ (p.pushAll pad).bytes ++ after) :: images) p'

/-- **The lines whose padding comes out right**, given the bits that are set before: a padded
line has no space where an earlier one had a tab. -/
def PaddingIntact (boundaries : List (List UInt8)) : (ℕ → Bool) → List (List UInt8) → Prop
  | _, [] => True
  | bits, line :: lines =>
      ∃ before pad after, LinePad boundaries line before pad after ∧
        (∀ j, pad[j]? = some SP → bits j = false) ∧
        PaddingIntact boundaries (fun j => bits j || pad[j]? = some TAB) lines

variable {boundaries : List (List UInt8)}

/-- A line has one padding. -/
theorem LinePad.unique {before' pad' after' : List UInt8}
    (h : LinePad boundaries line before pad after)
    (h' : LinePad boundaries line before' pad' after') : pad = pad' := by
  by_cases hpad : pad = []
  · by_cases hpad' : pad' = []
    · rw [hpad, hpad']
    · obtain ⟨hafter, x, u, hline, -⟩ := h'.found hpad'
      exact (h.only x u pad' after' hline hpad' hafter).symm
  · obtain ⟨hafter, x, u, hline, -⟩ := h.found hpad
    exact h'.only x u pad after hline hpad hafter

theorem LinePad.blank (h : LinePad boundaries line before pad after) :
    ∀ c ∈ pad, isBlankByte c = true := by
  by_cases hpad : pad = []
  · rw [hpad]
    nofun
  · obtain ⟨-, x, u, hline, -⟩ := h.found hpad
    exact hline.padded.blank

section

variable (h : Images boundaries p lines images p')
include h

/-- One more line. -/
theorem Images.concat (hpad : LinePad boundaries line before pad after) :
    Images boundaries p (lines ++ [line])
      (images ++ [before ++ (p'.pushAll pad).bytes ++ after]) (p'.pushAll pad).clear := by
  induction h with
  | nil p => exact .cons hpad (.nil _)
  | cons hfirst _ ih => exact .cons hfirst ih

/-- The images are as long as the lines. -/
theorem Images.lengths (hp : p.length = 0) : images.map List.length = lines.map List.length := by
  induction h with
  | nil => rfl
  | cons hpad hrest ih =>
      rw [List.map_cons, List.map_cons, ih rfl, hpad.parts]
      simp [PackedPadding.bytes, PackedPadding.pushAll_length, hp]

/-- **The images are the lines** exactly when the padding is intact. -/
theorem Images.eq_iff (hp : p.length = 0) :
    images = lines ↔ PaddingIntact boundaries p.bits lines := by
  induction h with
  | nil => exact ⟨fun _ => trivial, fun _ => rfl⟩
  | @cons p p' line before pad after lines images hpad hrest ih =>
      have hbits : (p.pushAll pad).clear.bits = fun j => p.bits j || pad[j]? = some TAB := by
        funext j
        rw [Bool.eq_iff_iff]
        have hset := PackedPadding.pushAll_bits p pad j
        rw [hp] at hset
        simpa [PackedPadding.clear] using hset
      have hline : before ++ (p.pushAll pad).bytes ++ after = line ↔
          (p.pushAll pad).bytes = pad := by
        rw [hpad.parts, List.append_cancel_right_eq, List.append_cancel_left_eq]
      rw [List.cons.injEq, hline, PackedPadding.bytes_pushAll hp hpad.blank, ih rfl, hbits]
      constructor
      · rintro ⟨hclear, hintact⟩
        exact ⟨before, pad, after, hpad, hclear, hintact⟩
      · rintro ⟨before', pad', after', hpad', hclear, hintact⟩
        obtain rfl := hpad.unique hpad'
        exact ⟨hclear, hintact⟩

end

end MailPortal.Mime
