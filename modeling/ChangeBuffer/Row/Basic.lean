import ChangeBuffer.Value.Printer

/-! # Rows

A row is a change: its values, and whether they are added or withdrawn.
-/

namespace ChangeBuffer

/-- What a row does to the table that it belongs to. -/
inductive Change
  | insert
  | updateBefore
  | updateAfter
  | delete
  deriving DecidableEq

namespace Change

/-- Whether the change brings a version of a row into being; the others withdraw one. -/
def adds : Change → Bool
  | insert | updateAfter => true
  | updateBefore | delete => false

def withdraws (c : Change) : Bool := !c.adds

def symbol : Change → String
  | insert => "+I"
  | updateBefore => "-U"
  | updateAfter => "+U"
  | delete => "-D"

end Change

structure Row where
  change : Change
  values : List Value
  deriving DecidableEq

namespace Row

def arity (r : Row) : Nat := r.values.length

def get? (r : Row) (position : Nat) : Option Value := r.values[position]?

def text (r : Row) : String :=
  r.change.symbol ++ "(" ++ ", ".intercalate (r.values.map Value.text) ++ ")"

end Row

end ChangeBuffer
