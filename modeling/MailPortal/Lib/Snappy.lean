import MailPortal.Lib.Varint

/-!
# The Snappy Block Format

A block is the varint of the length of what it stands for, and elements: literals, whose length is
in the tag or in one to four bytes after it, and copies of what the elements before have produced.
A copy may reach into what it produces itself.

`Block` is a block that is well formed, of a varint of any legal length.
-/

namespace Snappy

open Bytes

inductive CopyKind
  | one
  | two
  | four
  deriving DecidableEq

/-- An element: a literal, with the number of bytes in which its length is written; or a copy. -/
inductive Element
  | literal (lengthBytes : ℕ) (bytes : List UInt8)
  | copy (kind : CopyKind) (length offset : ℕ)
  deriving DecidableEq

/-- The lengths and offsets that a kind of copy has room for. -/
def CopyKind.Fits (length offset : ℕ) : CopyKind → Prop
  | one => 4 ≤ length ∧ length ≤ 11 ∧ offset < 2 ^ 11
  | two => 1 ≤ length ∧ length ≤ 64 ∧ offset < 2 ^ 16
  | four => 1 ≤ length ∧ length ≤ 64 ∧ offset < 2 ^ 32

/-- The bytes of a copy. -/
def CopyKind.bytes (length offset : ℕ) : CopyKind → List UInt8
  | one => [UInt8.ofNat (1 + 4 * (length - 4) + 32 * (offset / 256)), UInt8.ofNat offset]
  | two => UInt8.ofNat (2 + 4 * (length - 1)) :: spell 2 offset
  | four => UInt8.ofNat (3 + 4 * (length - 1)) :: spell 4 offset

namespace Element

/-- How an element is written. -/
def bytes : Element → List UInt8
  | literal 0 bs => UInt8.ofNat (4 * (bs.length - 1)) :: bs
  | literal (k + 1) bs => UInt8.ofNat (4 * (60 + k)) :: (spell (k + 1) (bs.length - 1) ++ bs)
  | copy kind length offset => kind.bytes length offset

/-- The element has a form, and a copy reaches back no further than there is output. -/
def Legal (produced : ℕ) : Element → Prop
  | literal 0 bs => 1 ≤ bs.length ∧ bs.length ≤ 60
  | literal (k + 1) bs => k < 4 ∧ 1 ≤ bs.length ∧ bs.length ≤ 256 ^ (k + 1)
  | copy kind length offset => kind.Fits length offset ∧ 1 ≤ offset ∧ offset ≤ produced

/-- The number of bytes that an element adds. -/
def size : Element → ℕ
  | literal _ bs => bs.length
  | copy _ length _ => length

/-- What an element makes of the output: a copy repeats the last `offset` bytes. -/
def extend (output : List UInt8) : Element → List UInt8
  | literal _ bs => output ++ bs
  | copy _ length offset =>
    output ++ (List.range length).map fun i => output.getD (output.length - offset + i % offset) 0

@[simp] theorem length_extend (output : List UInt8) (e : Element) :
    (e.extend output).length = output.length + e.size := by
  cases e <;> simp [extend, size]

theorem bytes_length_pos (e : Element) : 0 < e.bytes.length := by
  match e with
  | .literal 0 _ => exact Nat.succ_pos _
  | .literal (_ + 1) _ => exact Nat.succ_pos _
  | .copy .one _ _ => exact Nat.succ_pos _
  | .copy .two _ _ => exact Nat.succ_pos _
  | .copy .four _ _ => exact Nat.succ_pos _

end Element

/-- Every element is legal behind the ones before it. -/
def Legal : List UInt8 → List Element → Prop
  | _, [] => True
  | output, e :: es => e.Legal output.length ∧ Legal (e.extend output) es

/-- What the elements make of the output. -/
def extend (output : List UInt8) (es : List Element) : List UInt8 := es.foldl Element.extend output

theorem length_le_extend (output : List UInt8) (es : List Element) :
    output.length ≤ (extend output es).length := by
  induction es generalizing output with
  | nil => exact le_refl _
  | cons e es ih =>
    refine le_trans ?_ (ih (e.extend output))
    rw [Element.length_extend]
    exact Nat.le_add_right _ _

theorem length_le_bytes (es : List Element) : es.length ≤ (es.flatMap Element.bytes).length := by
  induction es with
  | nil => exact Nat.zero_le _
  | cons e es ih =>
    have hpos := e.bytes_length_pos
    rw [List.flatMap_cons, List.length_append, List.length_cons]
    omega

/-- A block. -/
structure Block where
  total : Varint
  elements : List Element
  short : total.bytes.length ≤ 10
  legal : Legal [] elements
  total_eq : total.value = (extend [] elements).length

namespace Block

def bytes (block : Block) : List UInt8 := block.total.bytes ++ block.elements.flatMap Element.bytes

/-- The bytes that the elements define. -/
def output (block : Block) : List UInt8 := extend [] block.elements

theorem bytes_ne_nil (block : Block) : block.bytes ≠ [] := by
  have hpos := block.total.length_pos
  intro h
  rw [bytes, List.append_eq_nil_iff] at h
  rw [h.1] at hpos
  exact Nat.lt_irrefl _ hpos

end Block

end Snappy
