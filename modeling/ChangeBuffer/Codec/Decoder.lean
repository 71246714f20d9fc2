import ChangeBuffer.Bytes.Utf8
import ChangeBuffer.Bytes.Word

/-! # Decoders

A decoder reads one thing from the front of a byte string and leaves the bytes behind it.  Words
are little endian; a sequence is the number of its elements as a word of eight bytes, and then
the elements.
-/

namespace ChangeBuffer

inductive DecodeError
  | unknownVariant (found limit : Nat)
  | badBoolean (found : Nat)
  | endOfText
  | endOfInput
  | badText (fault : Utf8.Fault)
  deriving DecidableEq

def DecodeError.message : DecodeError → String
  | unknownVariant found limit =>
    s!"invalid value: integer `{found}`, expected variant index 0 <= i < {limit}"
  | badBoolean found => s!"invalid u8 while decoding bool, expected 0 or 1, found {found}"
  | endOfText => "io error: "
  | endOfInput => "io error: unexpected end of file"
  | badText fault => "string is not valid utf8: " ++ fault.message

/-- Reads an `α` from the front of a byte string. -/
abbrev Decoder (α : Type) := Bytes → Except DecodeError (α × Bytes)

namespace Decoder

variable {α β : Type}

def andThen (d : Decoder α) (next : α → Decoder β) : Decoder β := fun bs =>
  match d bs with
  | .ok (a, rest) => next a rest
  | .error e => .error e

def map (f : α → β) (d : Decoder α) : Decoder β := fun bs =>
  match d bs with
  | .ok (a, rest) => .ok (f a, rest)
  | .error e => .error e

def bytes (n : Nat) : Decoder Bytes := fun bs =>
  if Bytes.hasAtLeast n bs then .ok (bs.take n, bs.drop n) else .error .endOfInput

def word (k : Nat) : Decoder Nat := (bytes k).map Word.value

def many (d : Decoder α) : Nat → Decoder (List α)
  | 0 => fun bs => .ok ([], bs)
  | n + 1 => d.andThen fun a => (many d n).map (a :: ·)

/-- Reads a sequence of elements behind their number. -/
def sequence (d : Decoder α) : Decoder (List α) := (word 8).andThen (many d)

def boolean : Decoder Bool :=
  (word 1).andThen fun
    | 0 => fun bs => .ok (false, bs)
    | 1 => fun bs => .ok (true, bs)
    | n => fun _ => .error (.badBoolean n)

def blob : Decoder Bytes := (word 8).andThen bytes

/-- Reads a text, which is a sequence of bytes in UTF-8. -/
def text : Decoder String :=
  (word 8).andThen fun n bs =>
    if Bytes.hasAtLeast n bs then
      match Utf8.decode (bs.take n) with
      | .ok s => .ok (s, bs.drop n)
      | .error fault => .error (.badText fault)
    else .error .endOfText

end Decoder

end ChangeBuffer
