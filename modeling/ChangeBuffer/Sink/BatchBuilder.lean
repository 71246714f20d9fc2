import ChangeBuffer.Sink.Basic

/-! # Building batches

A sink that puts the rows of each partition into batches of bounded size.
-/

namespace ChangeBuffer

/-- The batches so far, and the rows of the partition that is being received. -/
structure BatchBuilder where
  schema : Schema
  maxRows : Nat
  current : Option String
  /-- Rows of the current partition that are in no batch yet. -/
  pending : List Row
  batches : List Batch
  maxRows_pos : 0 < maxRows

namespace BatchBuilder

/-- A builder of batches of at most `maxRows` rows, and at least one. -/
def create (schema : Schema) (maxRows : Nat) : BatchBuilder :=
  ⟨schema, max maxRows 1, none, [], [], by omega⟩

variable (b : BatchBuilder)

/-- Makes a batch of the pending rows, if there are any. -/
def sealPending (path : String) : BatchBuilder × Except SinkError Unit :=
  if b.pending.isEmpty then (b, .ok ())
  else match Batch.ofRows b.schema path b.pending with
    | .error fault => ({ b with pending := [] }, .error (.batch fault))
    | .ok batch => ({ b with pending := [], batches := b.batches ++ [batch] }, .ok ())

def enter (path : String) : BatchBuilder × Except SinkError Unit :=
  match b.current with
  | some current => (b, .error (.stillOpen current path))
  | none => ({ b with current := some path }, .ok ())

def accept (row : Row) : BatchBuilder × Except SinkError Unit :=
  match b.current with
  | none => (b, .error .outside)
  | some path =>
    match b.schema.fault? row with
    | some fault => (b, .error (.rejected row fault))
    | none =>
      let b := { b with pending := b.pending ++ [row] }
      if b.maxRows ≤ b.pending.length then b.sealPending path else (b, .ok ())

def leave (path : String) : BatchBuilder × Except SinkError Unit :=
  if b.current = some path then
    match b.sealPending path with
    | (b, .error e) => (b, .error e)
    | (b, .ok ()) => ({ b with current := none }, .ok ())
  else (b, .error (.otherOpen path b.current))

/-- The batches so far, and the builder without them. -/
def take : BatchBuilder × List Batch := ({ b with batches := [] }, b.batches)

/-- Forgets every row and the current partition. -/
def reset : BatchBuilder := { b with current := none, pending := [], batches := [] }

end BatchBuilder

instance : Sink BatchBuilder where
  enter := BatchBuilder.enter
  accept := BatchBuilder.accept
  leave := BatchBuilder.leave

end ChangeBuffer
