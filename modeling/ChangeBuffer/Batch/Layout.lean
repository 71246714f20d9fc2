import ChangeBuffer.Schema

/-! # The layout of batches

The types in which the columns of a batch are stored, and what else is known of them.
-/

namespace ChangeBuffer

/-- The type of a stored column. -/
inductive ArrayType
  | boolean
  | int32
  | int64
  | float32
  | float64
  | date32
  | timestampMicros
  | utf8
  | binary
  | decimal128 (precision : Nat) (scale : Int)
  deriving DecidableEq

def ArrayType.text : ArrayType → String
  | boolean => "Boolean"
  | int32 => "Int32"
  | int64 => "Int64"
  | float32 => "Float32"
  | float64 => "Float64"
  | date32 => "Date32"
  | timestampMicros => "Timestamp(Microsecond, None)"
  | utf8 => "Utf8"
  | binary => "Binary"
  | decimal128 precision scale => s!"Decimal128({precision}, {scale})"

/-- The type in which values of a type are stored. -/
def ValueType.arrayType : ValueType → ArrayType
  | boolean => .boolean
  | int => .int32
  | long => .int64
  | float => .float32
  | double => .float64
  | date => .date32
  | timestamp => .timestampMicros
  | string => .utf8
  | binary => .binary
  | decimal precision scale => .decimal128 precision scale

structure ArrayField where
  name : String
  type : ArrayType
  nullable : Bool
  metadata : List (String × String)
  deriving DecidableEq

/-- The name under which a stored column carries the id of its column. -/
def idKey : String := "PARQUET:field_id"

def Column.arrayField (c : Column) : ArrayField :=
  ⟨c.name, c.type.arrayType, !c.required, [(idKey, String.ofList (Numeral.ofInt c.id))]⟩

def Schema.arrayFields (s : Schema) : List ArrayField := s.columns.map Column.arrayField

end ChangeBuffer
