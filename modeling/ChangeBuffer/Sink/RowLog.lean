import ChangeBuffer.Sink.Basic

/-! # Logs of rows

A sink that keeps every row with the path of its partition.
-/

namespace ChangeBuffer

/-- The rows so far, and the partition that is being received. -/
structure RowLog where
  current : Option String
  rows : List (String × Row)
  deriving DecidableEq

namespace RowLog

def empty : RowLog := ⟨none, []⟩

variable (l : RowLog)

def enter (path : String) : RowLog × Except SinkError Unit :=
  match l.current with
  | some current => (l, .error (.stillOpen current path))
  | none => ({ l with current := some path }, .ok ())

def accept (row : Row) : RowLog × Except SinkError Unit :=
  match l.current with
  | none => (l, .error .outside)
  | some path => ({ l with rows := l.rows ++ [(path, row)] }, .ok ())

/-- Ends the current partition, also if it is another one. -/
def leave (path : String) : RowLog × Except SinkError Unit :=
  ({ l with current := none },
    if l.current = some path then .ok () else .error (.otherOpen path l.current))

def take : RowLog × List (String × Row) := ({ l with rows := [] }, l.rows)

end RowLog

instance : Sink RowLog where
  enter := RowLog.enter
  accept := RowLog.accept
  leave := RowLog.leave

end ChangeBuffer
