import ChangeBuffer.Bytes.Crc32
import ChangeBuffer.Bytes.Word
import ChangeBuffer.Run.Damage

/-! # Records of a run

A record holds a key and the version of the row that is stored under it: the row's bytes, or a
mark that the row is removed.  Its twelve bytes of header are a checksum of everything else and
the lengths of the key and the row.
-/

namespace ChangeBuffer

/-- The newest state of a key. -/
inductive Version
  | present (row : Bytes)
  | removed
  deriving DecidableEq

/-- The length that marks a removed row. -/
def removedMark : Nat := 0xFFFFFFFF

namespace Version

/-- The bytes of the row. -/
def payload : Version → Bytes
  | present row => row
  | removed => []

/-- What stands for the length of the row. -/
def lengthField : Version → Nat
  | present row => row.length
  | removed => removedMark

end Version

structure Entry where
  key : Bytes
  version : Version
  deriving DecidableEq

namespace Entry

def headerSize : Nat := 12

variable (e : Entry)

def size : Nat := headerSize + e.key.length + e.version.payload.length

/-- Everything behind the checksum. -/
def body : Bytes :=
  Word.encode 4 e.key.length ++ Word.encode 4 e.version.lengthField ++
    e.key ++ e.version.payload

def check : Nat := (Crc32.checksum e.body).toNat

def encode : Bytes := Word.encode 4 e.check ++ e.body

/-- The part that is too long for its length to be written. -/
def excess? : Option (RecordPart × Nat) :=
  if 2 ^ 32 ≤ e.key.length then some (.key, e.key.length)
  else if removedMark ≤ e.version.payload.length then some (.value, e.version.payload.length)
  else none

end Entry

/-- What the header of the record at the front of `bs` declares. -/
structure RecordHeader where
  check : Nat
  keyLength : Nat
  lengthField : Nat
  deriving DecidableEq

namespace RecordHeader

def ofBytes (bs : Bytes) : RecordHeader where
  check := Word.value (bs.take 4)
  keyLength := Word.value ((bs.drop 4).take 4)
  lengthField := Word.value ((bs.drop 8).take 4)

variable (h : RecordHeader)

def rowLength : Nat := if h.lengthField = removedMark then 0 else h.lengthField

def bodyLength : Nat := h.keyLength + h.rowLength

/-- The entry that the header makes of the bytes behind it. -/
def entry (bs : Bytes) : Entry where
  key := bs.take h.keyLength
  version :=
    if h.lengthField = removedMark then .removed
    else .present ((bs.drop h.keyLength).take h.rowLength)

end RecordHeader

namespace Entry

/-- Reads the record at the front of `bs`, which begins at `offset` of its file. -/
def read (offset : Nat) (bs : Bytes) : Except Damage (Entry × Bytes) :=
  let header := RecordHeader.ofBytes bs
  let rest := bs.drop headerSize
  if !Bytes.hasAtLeast headerSize bs then .error (.truncated offset)
  else if !Bytes.hasAtLeast header.bodyLength rest then .error (.overrun header.bodyLength offset)
  else if (header.entry rest).check = header.check then
    .ok (header.entry rest, rest.drop header.bodyLength)
  else .error (.mismatch offset)

theorem length_lt_of_read {offset : Nat} {bs rest : Bytes} {e : Entry}
    (h : read offset bs = .ok (e, rest)) : rest.length < bs.length := by
  simp only [read] at h
  split at h
  · simp at h
  next hlen =>
    split at h
    · simp at h
    split at h
    · simp only [Except.ok.injEq, Prod.mk.injEq] at h
      rw [← h.2, List.length_drop, List.length_drop]
      simp [headerSize] at hlen ⊢
      omega
    · simp at h

end Entry

end ChangeBuffer
