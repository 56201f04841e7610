import MailPortal.Lib.Bytes

/-!
# Streams of Records

A workbook in the old format is a stream of records, each with its kind and its length in front of
it. The records come in substreams, from a `BOF` record to an `EOF` record.
-/

namespace Biff

open Bytes

def BOF : ℕ := 0x0809

def EOF : ℕ := 0x000a

/-- A record: its kind and its payload. -/
structure Record where
  kind : ℕ
  payload : List UInt8
  kind_lt : kind < 2 ^ 16
  length_lt : payload.length < 2 ^ 16

def Record.write (r : Record) : List UInt8 :=
  spell 2 r.kind ++ (spell 2 r.payload.length ++ r.payload)

/-- The type that a `BOF` record gives its substream. -/
def Record.type (r : Record) : ℕ := uint16 r.payload 2

/-- The records from a `BOF` to an `EOF`. -/
structure Substream where
  opening : Record
  records : List Record
  closing : Record
  opening_kind : opening.kind = BOF
  opening_length : 4 ≤ opening.payload.length
  closing_kind : closing.kind = EOF
  closing_payload : closing.payload = []
  inside : ∀ r ∈ records, r.kind ≠ BOF ∧ r.kind ≠ EOF

def Substream.all (s : Substream) : List Record := s.opening :: (s.records ++ [s.closing])

/-- The bytes of records. -/
def write (records : List Record) : List UInt8 := records.flatMap Record.write

theorem write_append (records more : List Record) :
    write (records ++ more) = write records ++ write more := List.flatMap_append

variable {stream : List UInt8} {offset : ℕ}

/-- The record at an offset. -/
def recordAt (stream : List UInt8) (offset : ℕ) (h : offset + 4 + uint16 stream (offset + 2) ≤
    stream.length) : Record where
  kind := uint16 stream offset
  payload := slice stream (offset + 4) (offset + 4 + uint16 stream (offset + 2))
  kind_lt := (littleEndian_lt _).trans_eq (by rw [length_slice (by omega)]; norm_num)
  length_lt := by
    rw [length_slice h, Nat.add_sub_cancel_left]
    exact (littleEndian_lt _).trans_eq (by rw [length_slice (by omega)]; norm_num)

theorem length_write (r : Record) : r.write.length = 4 + r.payload.length := by
  rw [Record.write, List.length_append, List.length_append, length_spell, length_spell]
  omega

theorem spell_uint16 (h : offset + 2 ≤ stream.length) :
    spell 2 (uint16 stream offset) = slice stream offset (offset + 2) := by
  have hlength : (slice stream offset (offset + 2)).length = 2 := by
    rw [length_slice h, Nat.add_sub_cancel_left]
  have hspell := spell_littleEndian (slice stream offset (offset + 2))
  rwa [hlength] at hspell

/-- A record is what is at its offset. -/
theorem write_recordAt (h : offset + 4 + uint16 stream (offset + 2) ≤ stream.length) :
    (recordAt stream offset h).write =
      slice stream offset (offset + 4 + uint16 stream (offset + 2)) := by
  have hpayload : (recordAt stream offset h).payload.length = uint16 stream (offset + 2) := by
    rw [recordAt, length_slice h, Nat.add_sub_cancel_left]
  rw [Record.write, hpayload, spell_uint16 (by omega)]
  have hkind : spell 2 (recordAt stream offset h).kind = slice stream offset (offset + 2) :=
    spell_uint16 (by omega)
  rw [hkind, recordAt, slice_append (by omega) (by omega), slice_append (by omega) (by omega)]

end Biff
