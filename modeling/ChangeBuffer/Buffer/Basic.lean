import ChangeBuffer.Buffer.KeyColumns
import ChangeBuffer.Partition.Scheme
import ChangeBuffer.Sink.Basic
import ChangeBuffer.Store.Basic

/-! # Buffers

A buffer keeps the last row of each key in each partition.  A row that adds takes the place of the
row with its key, a row that withdraws removes it.  A flush hands the rows that are left to a sink,
partition by partition, and empties the buffer.
-/

namespace ChangeBuffer

/-- Where a buffer is in its life. -/
inductive Phase
  | created
  | opened
  | flushing
  | failed
  | terminated
  deriving DecidableEq

def Phase.text : Phase → String
  | created => "Created"
  | opened => "Open"
  | flushing => "Flushing"
  | failed => "Failed"
  | terminated => "Terminated"

inductive Action
  | start
  | process
  | flush
  deriving DecidableEq

def Action.text : Action → String
  | start => "open"
  | process => "process event"
  | flush => "flush"

inductive BufferError
  | store (error : StoreError)
  | path (error : Partition.PathError)
  | rejected (row : Row) (fault : RowFault)
  | downstream (error : SinkError)
  | wrongPhase (action : Action) (phase : Phase)
  deriving DecidableEq

def BufferError.message : BufferError → String
  | store error => "spill store failure: " ++ error.message
  | path error => "partition key computation failed: " ++ error.message
  | rejected row fault => "row " ++ row.text ++ " does not match row schema: " ++ fault.message
  | downstream error => "downstream collector failed: " ++ error.message
  | wrongPhase action phase => "cannot " ++ action.text ++ " while operator is " ++ phase.text

/-- What a flush has handed over. -/
structure Flushed where
  partitions : Nat
  rows : Nat
  deriving DecidableEq

def Flushed.nothing : Flushed := ⟨0, 0⟩

/-- What a buffer has done.  Words of 64 bits hold the numbers as long as there are fewer than
`2 ^ 64` events. -/
structure Tally where
  added : Nat
  withdrawn : Nat
  flushes : Nat
  partitions : Nat
  rows : Nat
  deriving DecidableEq

namespace Tally

def zero : Tally := ⟨0, 0, 0, 0, 0⟩

variable (t : Tally)

def event (change : Change) : Tally :=
  if change.adds then { t with added := t.added + 1 } else { t with withdrawn := t.withdrawn + 1 }

def flush (f : Flushed) : Tally :=
  { t with
    flushes := t.flushes + 1
    partitions := t.partitions + f.partitions
    rows := t.rows + f.rows }

end Tally

/-- A buffer of rows over a store. -/
structure Buffer (σ : Type) where
  accessors : List Accessor
  /-- The accessors of the key columns, in ascending order. -/
  key : List (Fin accessors.length)
  schema : Schema
  scheme : Partition.Scheme
  store : σ
  /-- The paths of the rows since the last flush, each once.  Their order means nothing. -/
  touched : List String
  phase : Phase
  tally : Tally

namespace Buffer

variable {σ τ : Type}

/-- A new buffer of rows of `schema`, identified by the columns of `key`. -/
def create (accessors : List Accessor) (key schema : Schema) (scheme : Partition.Scheme)
    (store : σ) : Except KeyError (Buffer σ) :=
  (KeyColumns.resolve key schema accessors.length).map fun key =>
    ⟨accessors, key, schema, scheme, store, [], .created, .zero⟩

variable (b : Buffer σ)

def positions : List Nat := b.key.map Fin.val

/-- The path of the row's partition and the key of the row in the store. -/
def locate (row : Row) : Except BufferError (String × Bytes) :=
  match b.scheme.path row with
  | .error e => .error (.path e)
  | .ok path =>
    match (EntryKey.mk path (RowKey.project b.accessors b.key row)).encode with
    | .error fault => .error (.store (.malformedKey fault))
    | .ok key => .ok (path, key)

/-- Notes that a partition has been touched. -/
def touch (path : String) : List String :=
  if path ∈ b.touched then b.touched else b.touched ++ [path]

/-- The fault of a row that may be handed over.  Rows that withdraw never are. -/
def fault? (row : Row) : Option RowFault := if row.change.adds then b.schema.fault? row else none

variable [Store σ] [Sink τ]

/-- Puts a row into the store, or removes the row with its key. -/
def apply (row : Row) : Buffer σ × Except BufferError Unit :=
  match b.fault? row with
  | some fault => (b, .error (.rejected row fault))
  | none =>
    match b.locate row with
    | .error e => (b, .error e)
    | .ok (path, key) =>
      let stored :=
        if row.change.adds then Store.put b.store key row else Store.remove b.store key
      match stored with
      | (store, .error e) => ({ b with store }, .error (.store e))
      | (store, .ok ()) =>
        ({ b with store, touched := b.touch path, tally := b.tally.event row.change }, .ok ())

/-- Hands rows to a sink up to the first failure, and counts them. -/
def handOver (sink : τ) :
    List (Except StoreError (Bytes × Row)) → τ × Except BufferError Nat
  | [] => (sink, .ok 0)
  | .error e :: _ => (sink, .error (.store e))
  | .ok (_, row) :: items =>
    match Sink.accept sink row with
    | (sink, .error e) => (sink, .error (.downstream e))
    | (sink, .ok ()) =>
      match handOver sink items with
      | (sink, .error e) => (sink, .error e)
      | (sink, .ok n) => (sink, .ok (n + 1))

def partitionRows (store : σ) (path : String) :
    Except StoreError (List (Except StoreError (Bytes × Row))) :=
  match EntryKey.stem path with
  | .error fault => .error (.malformedKey fault)
  | .ok stem => Store.scan store stem

/-- Hands the rows of a partition to a sink, and counts them. -/
def emitPartition (store : σ) (sink : τ) (path : String) : τ × Except BufferError Nat :=
  match Sink.enter sink path with
  | (sink, .error e) => (sink, .error (.downstream e))
  | (sink, .ok ()) =>
    match partitionRows store path with
    | .error e => (sink, .error (.store e))
    | .ok items =>
      match handOver sink items with
      | (sink, .error e) => (sink, .error e)
      | (sink, .ok n) =>
        match Sink.leave sink path with
        | (sink, .error e) => (sink, .error (.downstream e))
        | (sink, .ok ()) => (sink, .ok n)

/-- Hands the rows of partitions to a sink, one partition after the other. -/
def emit (store : σ) (sink : τ) : List String → τ × Except BufferError Flushed
  | [] => (sink, .ok .nothing)
  | path :: paths =>
    match emitPartition store sink path with
    | (sink, .error e) => (sink, .error e)
    | (sink, .ok n) =>
      match emit store sink paths with
      | (sink, .error e) => (sink, .error e)
      | (sink, .ok f) => (sink, .ok ⟨f.partitions + 1, f.rows + n⟩)

/-- Hands every row to a sink and empties the buffer.  Without a touched partition it does
nothing. -/
def drain (sink : τ) : Buffer σ × τ × Except BufferError Flushed :=
  if b.touched.isEmpty then (b, sink, .ok .nothing)
  else match emit b.store sink b.touched with
    | (sink, .error e) => (b, sink, .error e)
    | (sink, .ok f) =>
      match Store.clear b.store with
      | (store, .error e) => ({ b with store }, sink, .error (.store e))
      | (store, .ok ()) =>
        ({ b with store, touched := [], tally := b.tally.flush f }, sink, .ok f)

def start : Buffer σ × Except BufferError Unit :=
  if b.phase = .created then ({ b with phase := .opened }, .ok ())
  else (b, .error (.wrongPhase .start b.phase))

/-- Takes a row.  A buffer that fails to do so takes no more. -/
def process (row : Row) : Buffer σ × Except BufferError Unit :=
  if b.phase = .opened then
    match b.apply row with
    | (b, .error e) => ({ b with phase := .failed }, .error e)
    | (b, .ok ()) => (b, .ok ())
  else (b, .error (.wrongPhase .process b.phase))

/-- Hands every row to a sink.  A buffer that fails to do so takes no more rows. -/
def flush (sink : τ) : Buffer σ × τ × Except BufferError Flushed :=
  if b.phase = .opened then
    match { b with phase := .flushing }.drain sink with
    | (b, sink, .error e) => ({ b with phase := .failed }, sink, .error e)
    | (b, sink, .ok f) => ({ b with phase := .opened }, sink, .ok f)
  else (b, sink, .error (.wrongPhase .flush b.phase))

/-- Empties a buffer that has failed. -/
def abandon : Buffer σ × Except BufferError Unit :=
  match Store.clear b.store with
  | (store, .error e) => ({ b with store, touched := [] }, .error (.store e))
  | (store, .ok ()) => ({ b with store, touched := [], phase := .terminated }, .ok ())

/-- Flushes a buffer, or empties it if it has failed, and ends its life. -/
def close (sink : τ) : Buffer σ × τ × Except BufferError Flushed :=
  match b.phase with
  | .terminated => (b, sink, .ok .nothing)
  | .created => ({ b with phase := .terminated }, sink, .ok .nothing)
  | .opened =>
    match b.flush sink with
    | (b, sink, .error e) => (b, sink, .error e)
    | (b, sink, .ok f) => ({ b with phase := .terminated }, sink, .ok f)
  | .flushing | .failed =>
    match b.abandon with
    | (b, .error e) => (b, sink, .error e)
    | (b, .ok ()) => (b, sink, .ok .nothing)

end Buffer

end ChangeBuffer
