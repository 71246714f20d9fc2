import ChangeBuffer.Buffer.Basic
import ChangeBuffer.Sink.BatchBuilder
import ChangeBuffer.Store.Backend
import ChangeBuffer.Stream.Task

/-! # Streams

A stream turns messages with rows into messages with batches.  The batches of a flush go out in
front of the barrier or the end of input that caused it, and those of a failed flush never do.
-/

namespace ChangeBuffer

/-- What a stream takes and gives. -/
inductive Message
  | event (row : Row)
  | batch (batch : Batch)
  | barrier (checkpoint : Nat)
  | endOfInput
  deriving DecidableEq

inductive StreamError
  | startedTwice
  | notStarted
  | unexpectedBatch (path : String)
  | settings (fault : SettingsFault)
  | store (error : StoreError)
  | key (error : KeyError)
  | buffer (error : BufferError)
  deriving DecidableEq

def StreamError.message : StreamError → String
  | startedTwice => "mini-batch operator opened twice"
  | notStarted => "mini-batch operator used before open"
  | unexpectedBatch path =>
    s!"mini-batch operator expects row events, got a batch for partition '{path}'"
  | settings fault => fault.message
  | store error => error.message
  | key error => error.message
  | buffer error => error.message

/-- Whether a stream has been started, and what it runs on.  A start that failed cannot be
repeated. -/
inductive StreamState
  | fresh
  | spent
  | running (buffer : Buffer Backend) (builder : BatchBuilder)

/-- What a stream is made of, whether or not it has been started. -/
structure Stream where
  accessors : List Accessor
  key : Schema
  schema : Schema
  scheme : Partition.Scheme
  state : StreamState

namespace Stream

def create (accessors : List Accessor) (key schema : Schema) (scheme : Partition.Scheme) :
    Stream := ⟨accessors, key, schema, scheme, .fresh⟩

variable (s : Stream)

/-- The buffer and the builder for the settings of a task. -/
def assemble (task : Task) (path : String) :
    Except StreamError (Buffer Backend × BatchBuilder) :=
  match task.settings with
  | .error fault => .error (.settings fault)
  | .ok settings =>
    match Backend.create settings task.host path with
    | .error e => .error (.store e)
    | .ok store =>
      match Buffer.create s.accessors s.key s.schema s.scheme store with
      | .error e => .error (.key e)
      | .ok buffer =>
        match buffer.start with
        | (_, .error e) => .error (.buffer e)
        | (buffer, .ok ()) => .ok (buffer, .create s.schema settings.maxBatchRows)

/-- Starts the stream for a task.  `path` is the directory of a store on disk. -/
def start (task : Task) (path : String) : Stream × Except StreamError Unit :=
  match s.state with
  | .fresh =>
    match s.assemble task path with
    | .error e => ({ s with state := .spent }, .error e)
    | .ok (buffer, builder) => ({ s with state := .running buffer builder }, .ok ())
  | _ => (s, .error .startedTwice)

/-- What goes out after a flush: the batches and then `tail`, or nothing if the flush failed. -/
def release (buffer : Buffer Backend) (builder : BatchBuilder)
    (flushed : Except BufferError Flushed) (tail : List Message) :
    Stream × Except StreamError (List Message) :=
  match flushed with
  | .error e => ({ s with state := .running buffer builder.reset }, .error (.buffer e))
  | .ok _ =>
    let (builder, batches) := builder.take
    ({ s with state := .running buffer builder }, .ok (batches.map .batch ++ tail))

/-- Takes a message and gives the messages that go out. -/
def process (message : Message) : Stream × Except StreamError (List Message) :=
  match s.state with
  | .running buffer builder =>
    match message with
    | .event row =>
      match buffer.process row with
      | (buffer, .error e) => ({ s with state := .running buffer builder }, .error (.buffer e))
      | (buffer, .ok ()) => ({ s with state := .running buffer builder }, .ok [])
    | .barrier checkpoint =>
      let (buffer, builder, flushed) := buffer.flush builder
      s.release buffer builder flushed [.barrier checkpoint]
    | .endOfInput =>
      let (buffer, builder, flushed) := buffer.flush builder
      s.release buffer builder flushed [.endOfInput]
    | .batch batch => (s, .error (.unexpectedBatch batch.path))
  | _ => (s, .error .notStarted)

def close : Stream × Except StreamError (List Message) :=
  match s.state with
  | .running buffer builder =>
    let (buffer, builder, flushed) := buffer.close builder
    s.release buffer builder flushed []
  | _ => (s, .error .notStarted)

def phase : Phase :=
  match s.state with
  | .running buffer _ => buffer.phase
  | _ => .created

end Stream

end ChangeBuffer
