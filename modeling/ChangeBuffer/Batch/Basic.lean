import ChangeBuffer.Batch.Layout

/-! # Batches

A batch holds rows of one partition by columns.  Each column is an array of values of one type and
nulls.  Decimals have at most 38 digits.  A batch has at least one column, and its arrays must be
those that the layout of its schema promises.
-/

namespace ChangeBuffer

/-- The most digits of a decimal in a batch. -/
def maxPrecision : Nat := 38

/-- Why rows cannot be put into a batch. -/
inductive BatchFault
  | mistyped (column : String) (type : ValueType) (value : Value)
  | zeroPrecision
  | widePrecision (precision : Nat)
  | wideScale (scale : Int)
  | scaleOverPrecision (scale : Int) (precision : Nat)
  | arrayCount (arrays fields : Nat)
  | noColumns
  | nullInRequired (column : String)
  | unequalLengths
  | wrongType (expected found : ArrayType) (index : Nat)
  deriving DecidableEq

/-- What every text of a refused argument begins with. -/
def BatchFault.refusal : String := "Invalid argument error: "

def BatchFault.message : BatchFault → String
  | mistyped column type value => (RowFault.mistyped column type value).message
  | zeroPrecision => refusal ++ s!"precision cannot be 0, has to be between [1, {maxPrecision}]"
  | widePrecision precision =>
    refusal ++ s!"precision {precision} is greater than max {maxPrecision}"
  | wideScale scale => refusal ++ s!"scale {scale} is greater than max {maxPrecision}"
  | scaleOverPrecision scale precision =>
    refusal ++ s!"scale {scale} is greater than precision {precision}"
  | arrayCount arrays fields =>
    refusal ++ s!"number of columns({arrays}) must match number of fields({fields}) in schema"
  | noColumns => refusal ++ "must either specify a row count or at least one column"
  | nullInRequired column =>
    refusal ++ s!"Column '{column}' is declared as non-nullable but contains null values"
  | unequalLengths => refusal ++ "all columns in a record batch must have the same length"
  | wrongType expected found index =>
    refusal ++ "column types must match schema types, expected " ++ expected.text ++
      " but found " ++ found.text ++ s!" at column index {index}"

/-- What a column of the type holds for a value. -/
def ValueType.cell? : ValueType → Value → Option Value
  | _, .null => some .null
  | boolean, .boolean b => some (.boolean b)
  | int, .int v => some (.int v)
  | long, .long v => some (.long v)
  | float, .float bits => some (.float bits)
  | double, .double bits => some (.double bits)
  | date, .date days => some (.date days)
  | timestamp, .timestamp micros => some (.timestamp micros)
  | string, .string s => some (.string s)
  | binary, .binary bs => some (.binary bs)
  | decimal _ _, .decimal unscaled => some (.decimal unscaled)
  | _, _ => none

/-- Why a batch cannot have a column of the type. -/
def ValueType.batchFault? : ValueType → Option BatchFault
  | decimal precision scale =>
    if precision = 0 then some .zeroPrecision
    else if maxPrecision < precision then some (.widePrecision precision)
    else if maxPrecision < scale then some (.wideScale scale)
    else if 0 < scale ∧ precision < scale then some (.scaleOverPrecision scale precision)
    else none
  | _ => none

/-- The type of the array that is made of values of a type. -/
def ValueType.madeType : ValueType → ArrayType
  | boolean => .boolean
  | int => .int32
  | long => .int64
  | float => .float32
  | double => .float64
  | date => .date32
  | timestamp => .timestampMicros
  | string => .utf8
  | binary => .binary
  | decimal precision scale => .decimal128 precision scale

/-- A column of a batch. -/
structure ColumnArray where
  type : ArrayType
  cells : List Value
  deriving DecidableEq

def ColumnArray.hasNull (a : ColumnArray) : Bool := a.cells.any Value.isNull

namespace Column

variable (c : Column)

/-- What the column holds for a value. -/
def cell (v : Value) : Except BatchFault Value :=
  match c.type.cell? v with
  | some cell => .ok cell
  | none => .error (.mistyped c.name c.type v)

/-- The array that the column holds for the values of rows. -/
def array (values : List Value) : Except BatchFault ColumnArray :=
  match values.mapM c.cell with
  | .error fault => .error fault
  | .ok cells =>
    match c.type.batchFault? with
    | some fault => .error fault
    | none => .ok ⟨c.type.madeType, cells⟩

end Column

/-- Rows of a partition by columns, and the change of each row. -/
structure Batch where
  path : String
  changes : List Change
  arrays : List ColumnArray
  deriving DecidableEq

namespace Batch

def size (b : Batch) : Nat := b.changes.length

def columns (b : Batch) : List (List Value) := b.arrays.map ColumnArray.cells

def column (position : Nat) (rows : List Row) : List Value :=
  rows.map fun r => (r.get? position).getD .null

/-- The arrays of the rows, in the order of the columns. -/
def arraysOf (schema : Schema) (rows : List Row) : Except BatchFault (List ColumnArray) :=
  schema.columns.zipIdx.mapM fun (c, i) => c.array (column i rows)

/-- The first field that must not hold null and does. -/
def nullField? (fields : List ArrayField) (arrays : List ColumnArray) : Option ArrayField :=
  ((fields.zip arrays).find? fun (f, a) => !f.nullable && a.hasNull).map Prod.fst

/-- The first array that is not of the type of its field. -/
def typeFault? (fields : List ArrayField) (arrays : List ColumnArray) : Option BatchFault :=
  (fields.zip arrays).zipIdx.findSome? fun ((f, a), i) =>
    if a.type = f.type then none else some (.wrongType f.type a.type i)

/-- Why arrays are not those that the fields promise. -/
def arraysFault? (fields : List ArrayField) (arrays : List ColumnArray) : Option BatchFault :=
  if fields.length ≠ arrays.length then some (.arrayCount arrays.length fields.length)
  else match arrays with
    | [] => some .noColumns
    | first :: _ =>
      match nullField? fields arrays with
      | some f => some (.nullInRequired f.name)
      | none =>
        if arrays.any fun a => a.cells.length ≠ first.cells.length then some .unequalLengths
        else typeFault? fields arrays

def ofRows (schema : Schema) (path : String) (rows : List Row) : Except BatchFault Batch :=
  match arraysOf schema rows with
  | .error fault => .error fault
  | .ok arrays =>
    match arraysFault? schema.arrayFields arrays with
    | some fault => .error fault
    | none => .ok ⟨path, rows.map Row.change, arrays⟩

/-- The batch without any content. -/
def empty (path : String) : Batch := ⟨path, [], []⟩

end Batch

end ChangeBuffer
