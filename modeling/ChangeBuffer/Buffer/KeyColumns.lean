import ChangeBuffer.Schema

/-! # Key columns

The columns whose values identify a row are given by their ids.  They are resolved to positions
of the row, in ascending order, so that their order among each other does not matter.
-/

namespace ChangeBuffer

inductive KeyError
  | unresolved (id : Int) (name : String)
  | duplicate (id : Int)
  | empty
  | noAccessor (position count : Nat)
  deriving DecidableEq

def KeyError.message : KeyError → String
  | unresolved id name => s!"equality field {name} (id {id}) not found in row schema"
  | duplicate id => s!"equality field id {id} listed more than once"
  | empty => "equality schema has no fields"
  | noAccessor position count =>
    s!"no field getter for row position {position} ({count} getters configured)"

namespace KeyColumns

/-- The position of a key column whose id is not among those already `taken`. -/
def locate (schema : Schema) (count : Nat) (taken : List Int) (c : Column) :
    Except KeyError (Fin count) :=
  if c.id ∈ taken then .error (.duplicate c.id)
  else match schema.position? c.id with
    | none => .error (.unresolved c.id c.name)
    | some position =>
      if h : position < count then .ok ⟨position, h⟩ else .error (.noAccessor position count)

def locateAll (schema : Schema) (count : Nat) :
    List Int → List Column → Except KeyError (List (Fin count))
  | _, [] => .ok []
  | taken, c :: cs =>
    match locate schema count taken c with
    | .error e => .error e
    | .ok position =>
      match locateAll schema count (c.id :: taken) cs with
      | .error e => .error e
      | .ok positions => .ok (position :: positions)

/-- The positions of the key columns among `count` accessors of a row, in ascending order. -/
def resolve (key schema : Schema) (count : Nat) : Except KeyError (List (Fin count)) :=
  if key.isEmpty then .error .empty
  else (locateAll schema count [] key.columns).map fun positions =>
    positions.mergeSort fun a b => a ≤ b

end KeyColumns

end ChangeBuffer
