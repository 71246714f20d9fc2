import ChangeBuffer.Codec.Decoder
import ChangeBuffer.Value.Basic

/-! # Values as bytes

A value is its kind as a word of four bytes and then its payload.  Numbers are words of their
width, texts and byte strings stand behind their length as a word of eight bytes.
-/

namespace ChangeBuffer.Value

/-- Texts and byte strings behind their length. -/
def encodeBlob (bs : Bytes) : Bytes := Word.encode 8 bs.length ++ bs

def encode : Value → Bytes
  | null => Word.encode 4 0
  | boolean b => Word.encode 4 1 ++ Word.encode 1 b.toNat
  | int v => Word.encode 4 2 ++ Word.encode 4 v.toNat
  | long v => Word.encode 4 3 ++ Word.encode 8 v.toNat
  | float bits => Word.encode 4 4 ++ Word.encode 4 bits.toNat
  | double bits => Word.encode 4 5 ++ Word.encode 8 bits.toNat
  | date days => Word.encode 4 6 ++ Word.encode 4 days.toNat
  | timestamp micros => Word.encode 4 7 ++ Word.encode 8 micros.toNat
  | string s => Word.encode 4 8 ++ encodeBlob (Bytes.ofText s)
  | binary bs => Word.encode 4 9 ++ encodeBlob bs
  | decimal unscaled => Word.encode 4 10 ++ Word.encode 16 unscaled.toNat

def kinds : Nat := 11

/-- Reads the payload of a value of the given kind. -/
def decodePayload : Nat → Decoder Value
  | 0 => fun bs => .ok (null, bs)
  | 1 => Decoder.boolean.map boolean
  | 2 => (Decoder.word 4).map fun n => int (.ofNat 32 n)
  | 3 => (Decoder.word 8).map fun n => long (.ofNat 64 n)
  | 4 => (Decoder.word 4).map fun n => float (.ofNat 32 n)
  | 5 => (Decoder.word 8).map fun n => double (.ofNat 64 n)
  | 6 => (Decoder.word 4).map fun n => date (.ofNat 32 n)
  | 7 => (Decoder.word 8).map fun n => timestamp (.ofNat 64 n)
  | 8 => Decoder.text.map string
  | 9 => Decoder.blob.map binary
  | 10 => (Decoder.word 16).map fun n => decimal (.ofNat 128 n)
  | kind => fun _ => .error (.unknownVariant kind kinds)

def decode : Decoder Value := (Decoder.word 4).andThen decodePayload

def encodeAll (vs : List Value) : Bytes := Word.encode 8 vs.length ++ vs.flatMap encode

def decodeAll : Decoder (List Value) := decode.sequence

end ChangeBuffer.Value
