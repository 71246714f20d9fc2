import ChangeBuffer.Batch.Basic

/-! # Sinks

A sink receives rows partition by partition.  An operation gives the sink that it leaves behind
also when it fails.
-/

namespace ChangeBuffer

inductive SinkError
  | stillOpen (current began : String)
  | outside
  | otherOpen (ended : String) (current : Option String)
  | rejected (row : Row) (fault : RowFault)
  | batch (fault : BatchFault)
  | refused (message : String)
  deriving DecidableEq

def SinkError.optionText : Option String → String
  | none => "None"
  | some path => "Some(" ++ String.ofList (Quoted.write path) ++ ")"

def SinkError.message : SinkError → String
  | stillOpen current began => s!"partition '{current}' still open when '{began}' began"
  | outside => "row collected outside of a partition"
  | otherOpen ended current =>
    "end of partition '" ++ ended ++ "' but open partition is " ++ optionText current
  | rejected row fault =>
    "row " ++ row.text ++ " does not match output schema: " ++ fault.message
  | batch fault => fault.message
  | refused message => message

/-- What every sink can do. -/
class Sink (σ : Type) where
  enter : σ → String → σ × Except SinkError Unit
  accept : σ → Row → σ × Except SinkError Unit
  leave : σ → String → σ × Except SinkError Unit

end ChangeBuffer
