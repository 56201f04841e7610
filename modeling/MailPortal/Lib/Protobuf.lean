import MailPortal.Lib.Varint

/-!
# The Protobuf Wire Format

A message is a list of fields: a key, the varint of the field's number and wire type, and a payload
that is a varint, eight or four bytes, or bytes with their length as a varint before them. A
varint is of ten bytes at most, and a negative integer takes all ten.
-/

namespace Protobuf

/-- The longest varint is of ten bytes and below `2 ^ 64`. -/
def Legal (v : Varint) : Prop := v.bytes.length ≤ 10 ∧ v.value < 2 ^ 64

/-- What follows the key of a field. -/
inductive Payload
  | varint (value : Varint) (legal : Legal value)
  | fixed64 (bytes : List UInt8) (length : bytes.length = 8)
  | delimited (size : Varint) (legal : Legal size) (bytes : List UInt8)
      (length : size.value = bytes.length)
  | fixed32 (bytes : List UInt8) (length : bytes.length = 4)

namespace Payload

def wireType : Payload → ℕ
  | varint _ _ => 0
  | fixed64 _ _ => 1
  | delimited _ _ _ _ => 2
  | fixed32 _ _ => 5

def bytes : Payload → List UInt8
  | varint value _ => value.bytes
  | fixed64 bytes _ => bytes
  | delimited size _ bytes _ => size.bytes ++ bytes
  | fixed32 bytes _ => bytes

/-- The varints of a payload. -/
def varints : Payload → List Varint
  | varint value _ => [value]
  | fixed64 _ _ => []
  | delimited size _ _ _ => [size]
  | fixed32 _ _ => []

end Payload

/-- A field of a message. -/
structure Field where
  key : Varint
  number : ℕ
  payload : Payload
  legal : Legal key
  positive : 1 ≤ number
  key_eq : key.value = 8 * number + payload.wireType

namespace Field

def bytes (field : Field) : List UInt8 := field.key.bytes ++ field.payload.bytes

def varints (field : Field) : List Varint := field.key :: field.payload.varints

theorem bytes_length_pos (field : Field) : 0 < field.bytes.length := by
  have hpos := field.key.length_pos
  rw [bytes, List.length_append]
  omega

end Field

/-- How a message is written. -/
def messageBytes (fields : List Field) : List UInt8 := fields.flatMap Field.bytes

theorem length_le_messageBytes (fields : List Field) :
    fields.length ≤ (messageBytes fields).length := by
  induction fields with
  | nil => exact Nat.zero_le _
  | cons field fields ih =>
    have hpos := field.bytes_length_pos
    rw [messageBytes, List.flatMap_cons, List.length_append, List.length_cons]
    rw [messageBytes] at ih
    omega

/-- All varints of a message. -/
def messageVarints (fields : List Field) : List Varint := fields.flatMap Field.varints

end Protobuf
