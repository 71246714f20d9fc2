import ChangeBuffer.Partition.Escape
import ChangeBuffer.Partition.Transform
import ChangeBuffer.Schema

/-! # Partition schemes

A spec names the columns that partition a table and how their values are transformed.  Bound to
a schema it is a scheme, which gives every row the path of its partition: `name=value` segments
with a slash between them.
-/

namespace ChangeBuffer.Partition

/-- A partition field: the column it is computed from, its name, and the transform. -/
structure Rule where
  source : Int
  name : String
  transform : Transform
  deriving DecidableEq

structure Spec where
  rules : List Rule
  deriving DecidableEq

def Spec.isUnpartitioned (s : Spec) : Bool := s.rules.isEmpty

inductive SpecError
  | duplicateName (name : String)
  | zeroWidth (name : String)
  | unknownSource (source : Int) (name : String)
  | inapplicable (transform : Transform) (type : ValueType) (name : String)
  | wideWidth (width : Nat) (name : String)
  deriving DecidableEq

def SpecError.message (e : SpecError) : String :=
  "invalid partition spec: " ++
    match e with
    | duplicateName name => s!"duplicate partition field name '{name}'"
    | zeroWidth name => s!"truncate width must be positive for '{name}'"
    | unknownSource source name => s!"source field id {source} of '{name}' not in row schema"
    | inapplicable transform type name =>
      "transform " ++ transform.text ++ " cannot be applied to " ++ type.text ++
        " field '" ++ name ++ "'"
    | wideWidth width name => s!"truncate width {width} does not fit int field '{name}'"

/-- A partition field bound to a column. -/
structure Field where
  name : String
  transform : Transform
  accessor : Accessor
  fits : transform.Fits accessor.type

namespace Field

/-- Binds a field whose name is not among those already `taken`. -/
def bind (schema : Schema) (taken : List String) (r : Rule) : Except SpecError Field :=
  if r.name ∈ taken then .error (.duplicateName r.name)
  else if hw : r.transform = .truncate 0 then .error (.zeroWidth r.name)
  else match schema.position? r.source, schema.column? r.source with
    | some position, some column =>
      if ha : r.transform.applies column.type then
        match hx : r.transform.excess? column.type with
        | some width => .error (.wideWidth width r.name)
        | none => .ok ⟨r.name, r.transform, ⟨position, column.type⟩, ⟨ha, hw, hx⟩⟩
      else .error (.inapplicable r.transform column.type r.name)
    | _, _ => .error (.unknownSource r.source r.name)

end Field

structure PathError where
  refusal : Refusal
  field : String
  transform : Transform
  value : Value
  deriving DecidableEq

def PathError.message (e : PathError) : String :=
  match e.refusal with
  | .unsupported =>
    "transform " ++ e.transform.text ++ " cannot be applied to " ++ e.value.text ++
      " in partition field '" ++ e.field ++ "'"
  | .outOfRange =>
    e.value.text ++ " is out of the representable date range in partition field '" ++
      e.field ++ "'"

/-- The text that stands for null and for what the void transform makes of a value. -/
def nullText : List Char := ['n', 'u', 'l', 'l']

/-- The text by which the field partitions the row. -/
def Field.valueText (f : Field) (r : Row) : Except PathError String :=
  let v := f.accessor.read r
  match f.transform.render f.accessor.type v with
  | .ok text => .ok (String.ofList (text.getD nullText))
  | .error refusal => .error ⟨refusal, f.name, f.transform, v⟩

def segment (name value : String) : List Char := Escape.encode name ++ '=' :: Escape.encode value

structure Scheme where
  spec : Spec
  fields : List Field

namespace Scheme

def bindFields (schema : Schema) : List String → List Rule → Except SpecError (List Field)
  | _, [] => .ok []
  | taken, r :: rs =>
    match Field.bind schema taken r with
    | .error e => .error e
    | .ok f =>
      match bindFields schema (r.name :: taken) rs with
      | .error e => .error e
      | .ok fs => .ok (f :: fs)

def bind (spec : Spec) (schema : Schema) : Except SpecError Scheme :=
  (bindFields schema [] spec.rules).map fun fields => ⟨spec, fields⟩

variable (s : Scheme)

/-- The names of the fields and their texts for the row, in order. -/
def valueTexts (r : Row) : Except PathError (List (String × String)) :=
  s.fields.mapM fun f => (f.valueText r).map (f.name, ·)

/-- The path of the row's partition. -/
def path (r : Row) : Except PathError String :=
  (s.valueTexts r).map fun pairs =>
    String.ofList (['/'].intercalate (pairs.map fun (name, value) => segment name value))

end Scheme

end ChangeBuffer.Partition
