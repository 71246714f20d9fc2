import ChangeBuffer.Bytes.Basic

/-! # UTF-8 texts in byte strings

Reading a text back from its bytes.  A refusal names the length of the longest well-formed
beginning, and whether the bytes behind it are ill-formed or merely incomplete.
-/

namespace ChangeBuffer.Utf8

/-- Why bytes are no text: `illFormed` bytes, or a sequence cut off by the end, from an index. -/
inductive Fault
  | illFormed (length index : Nat)
  | incomplete (index : Nat)
  deriving DecidableEq

def Fault.message : Fault → String
  | .illFormed length index => s!"invalid utf-8 sequence of {length} bytes from index {index}"
  | .incomplete index => s!"incomplete utf-8 byte sequence from index {index}"

def isContinuation (b : UInt8) : Bool := 0x80 ≤ b && b ≤ 0xBF

/-- The bytes that may follow a leading byte, or nothing if no sequence begins with it: the range
of the second byte and the number of continuation bytes behind that. -/
def follow? (lead : UInt8) : Option ((UInt8 × UInt8) × Nat) :=
  if 0xC2 ≤ lead && lead ≤ 0xDF then some ((0x80, 0xBF), 0)
  else if lead = 0xE0 then some ((0xA0, 0xBF), 1)
  else if lead = 0xED then some ((0x80, 0x9F), 1)
  else if 0xE1 ≤ lead && lead ≤ 0xEF then some ((0x80, 0xBF), 1)
  else if lead = 0xF0 then some ((0x90, 0xBF), 2)
  else if 0xF1 ≤ lead && lead ≤ 0xF3 then some ((0x80, 0xBF), 2)
  else if lead = 0xF4 then some ((0x80, 0x8F), 2)
  else none

/-- Looks for `n` continuation bytes behind a sequence of `length` good bytes at `index`. -/
def continuationFault? (index : Nat) : (length n : Nat) → Bytes → Option Fault
  | _, 0, _ => none
  | _, _ + 1, [] => some (.incomplete index)
  | length, n + 1, b :: bs =>
    if isContinuation b then continuationFault? index (length + 1) n bs
    else some (.illFormed length index)

/-- The fault of the sequence at the front of `bs`, or its length. -/
def sequence (index : Nat) (lead : UInt8) (bs : Bytes) : Except Fault Nat :=
  if lead < 0x80 then .ok 1
  else match follow? lead, bs with
    | none, _ => .error (.illFormed 1 index)
    | some _, [] => .error (.incomplete index)
    | some ((low, high), n), b :: bs =>
      if low ≤ b && b ≤ high then
        match continuationFault? index 2 n bs with
        | some fault => .error fault
        | none => .ok (n + 2)
      else .error (.illFormed 1 index)

/-- The first fault of `bs`, whose first `pending` bytes belong to a sequence already checked. -/
def faultFrom (index pending : Nat) : Bytes → Fault
  | [] => .incomplete index
  | b :: bs =>
    match pending with
    | pending + 1 => faultFrom (index + 1) pending bs
    | 0 =>
      match sequence index b bs with
      | .error fault => fault
      | .ok length => faultFrom (index + 1) (length - 1) bs

/-- The text that the bytes spell, or the first fault that keeps them from being one. -/
def decode (bs : Bytes) : Except Fault String :=
  match String.fromUTF8? ⟨bs.toArray⟩ with
  | some s => .ok s
  | none => .error (faultFrom 0 0 bs)

end ChangeBuffer.Utf8
