import ChangeBuffer.Row.Basic

/-! # Schemas

A schema lists the columns of a row.  A row fits if it has a value for each column, of the
column's type, and null only where the column allows it.
-/

namespace ChangeBuffer

/-- A column is identified by its id, whatever its name and place. -/
structure Column where
  id : Int
  name : String
  type : ValueType
  required : Bool
  deriving DecidableEq

inductive RowFault
  | arity (found expected : Nat)
  | missing (column : String)
  | mistyped (column : String) (type : ValueType) (value : Value)
  deriving DecidableEq

def RowFault.message : RowFault → String
  | arity found expected => s!"row has {found} fields, schema has {expected}"
  | missing column => s!"required field '{column}' is null"
  | mistyped column type value =>
    "field '" ++ column ++ "' expects " ++ type.text ++ ", got " ++ value.text

/-- Why the column cannot hold the value. -/
def Column.fault? (c : Column) (v : Value) : Option RowFault :=
  if c.required && v.isNull then some (.missing c.name)
  else if v.conforms c.type then none
  else some (.mistyped c.name c.type v)

/-- Reads the value at a position of a row. -/
structure Accessor where
  position : Nat
  type : ValueType
  deriving DecidableEq

def Accessor.read (a : Accessor) (r : Row) : Value := r.values.getD a.position .null

structure Schema where
  columns : List Column
  deriving DecidableEq

namespace Schema

variable (s : Schema)

def size : Nat := s.columns.length

def isEmpty : Bool := s.columns.isEmpty

def column? (id : Int) : Option Column := s.columns.find? (·.id = id)

def position? (id : Int) : Option Nat := s.columns.findIdx? (·.id = id)

/-- The columns with the ids, in the order of the ids.  Unknown ids are left out. -/
def select (ids : List Int) : Schema := ⟨ids.filterMap s.column?⟩

def fault? (r : Row) : Option RowFault :=
  if r.arity ≠ s.size then some (.arity r.arity s.size)
  else (s.columns.zip r.values).findSome? fun (c, v) => c.fault? v

def accessors : List Accessor := s.columns.zipIdx.map fun (c, i) => ⟨i, c.type⟩

end Schema

end ChangeBuffer
