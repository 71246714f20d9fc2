import ChangeBuffer.Row.Basic
import ChangeBuffer.Value.Codec

/-! # Rows as bytes

A row is its change as a word of four bytes and then its values.  Decoding ignores what follows
the row.
-/

namespace ChangeBuffer

namespace Change

def code : Change → Nat
  | insert => 0
  | updateBefore => 1
  | updateAfter => 2
  | delete => 3

def kinds : Nat := 4

def ofCode? : Nat → Option Change
  | 0 => some insert
  | 1 => some updateBefore
  | 2 => some updateAfter
  | 3 => some delete
  | _ => none

theorem ofCode?_code (c : Change) : ofCode? c.code = some c := by cases c <;> rfl

def decode : Decoder Change :=
  (Decoder.word 4).andThen fun n bs =>
    match ofCode? n with
    | some c => .ok (c, bs)
    | none => .error (.unknownVariant n kinds)

end Change

namespace Row

def encode (r : Row) : Bytes := Word.encode 4 r.change.code ++ Value.encodeAll r.values

def read : Decoder Row :=
  Change.decode.andThen fun change => Value.decodeAll.map (Row.mk change)

/-- The row at the front of the bytes. -/
def decode (bs : Bytes) : Except DecodeError Row := (read bs).map (·.1)

end Row

end ChangeBuffer
