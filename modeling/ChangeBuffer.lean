import ChangeBuffer.Bytes.Basic
import ChangeBuffer.Bytes.Crc32
import ChangeBuffer.Bytes.Hex
import ChangeBuffer.Bytes.Utf8
import ChangeBuffer.Bytes.Word
import ChangeBuffer.SortedMap
import ChangeBuffer.Decimal.Binary
import ChangeBuffer.Decimal.Notation
import ChangeBuffer.Decimal.Numeral
import ChangeBuffer.Decimal.Shortest
import ChangeBuffer.Text.Printable
import ChangeBuffer.Text.Quoted
import ChangeBuffer.Calendar.Basic
import ChangeBuffer.Calendar.Notation
import ChangeBuffer.Json
import ChangeBuffer.Codec.Decoder
import ChangeBuffer.Value.Basic
import ChangeBuffer.Value.Codec
import ChangeBuffer.Value.Printer
import ChangeBuffer.Row.Basic
import ChangeBuffer.Row.Codec
import ChangeBuffer.Schema
import ChangeBuffer.Key
import ChangeBuffer.Partition.Escape
import ChangeBuffer.Partition.Transform
import ChangeBuffer.Partition.Scheme
import ChangeBuffer.Settings.Basic
import ChangeBuffer.Settings.Json
import ChangeBuffer.Store.Folder
import ChangeBuffer.Store.Path
import ChangeBuffer.Store.Host
import ChangeBuffer.Run.Damage
import ChangeBuffer.Store.Error
import ChangeBuffer.Store.Basic
import ChangeBuffer.Run.Record
import ChangeBuffer.Run.Writer
import ChangeBuffer.Run.Reader
import ChangeBuffer.Run.Merge
import ChangeBuffer.Store.Memory
import ChangeBuffer.Store.Disk
import ChangeBuffer.Store.Backend
import ChangeBuffer.Batch.Basic
import ChangeBuffer.Batch.Layout
import ChangeBuffer.Sink.Basic
import ChangeBuffer.Sink.RowLog
import ChangeBuffer.Sink.BatchBuilder
import ChangeBuffer.Buffer.KeyColumns
import ChangeBuffer.Buffer.Basic
import ChangeBuffer.Stream.Task
import ChangeBuffer.Stream.Basic
import ChangeBuffer.Proofs.Traversal
import ChangeBuffer.Proofs.Bytes.BurstErrors
import ChangeBuffer.Proofs.Bytes.Order
import ChangeBuffer.Proofs.Run.Record
import ChangeBuffer.Proofs.Run.Writing
import ChangeBuffer.Proofs.Run.Burst
import ChangeBuffer.Proofs.Codec.Decoder
import ChangeBuffer.Proofs.Codec.Row
import ChangeBuffer.Proofs.Run.Merge
import ChangeBuffer.Proofs.Run.Cut
import ChangeBuffer.Proofs.Decimal.Numeral
import ChangeBuffer.Proofs.SortedMap
import ChangeBuffer.Proofs.Store.Files
import ChangeBuffer.Proofs.Store.Shelf
import ChangeBuffer.Proofs.Store.Onward
import ChangeBuffer.Proofs.Store.Operations
import ChangeBuffer.Proofs.Store.Intact
import ChangeBuffer.Proofs.Store.Lawful
import ChangeBuffer.Proofs.Store.History
import ChangeBuffer.Proofs.Store.Charges
import ChangeBuffer.Proofs.Store.Failure
import ChangeBuffer.Proofs.Store.Recovery
import ChangeBuffer.Proofs.Store.Undisturbed
import ChangeBuffer.Proofs.Store.Damage
import ChangeBuffer.Proofs.Run.Truncation
import ChangeBuffer.Proofs.Store.Truncation
import ChangeBuffer.Proofs.Key
import ChangeBuffer.Proofs.Batch.Rows
import ChangeBuffer.Proofs.Sink.Batches
import ChangeBuffer.Proofs.Buffer.Survivors
import ChangeBuffer.Proofs.Buffer.Window
import ChangeBuffer.Proofs.Buffer.Calls
import ChangeBuffer.Proofs.Buffer.Run
import ChangeBuffer.Proofs.Buffer.Emission
import ChangeBuffer.Proofs.Buffer.Phases
import ChangeBuffer.Proofs.Buffer.Trace
import ChangeBuffer.Proofs.Stream.Answers
import ChangeBuffer.Proofs.Stream.Disturbance
import ChangeBuffer.Proofs.Partition.Escape
import ChangeBuffer.Proofs.Partition.Path
import ChangeBuffer.Proofs.Calendar.Gregorian
import ChangeBuffer.Proofs.Calendar.Notation
import ChangeBuffer.Proofs.Partition.Periods
import ChangeBuffer.Proofs.Decimal.Scaled
import ChangeBuffer.Proofs.Bytes.Hex
import ChangeBuffer.Proofs.Calendar.Moment
import ChangeBuffer.Proofs.Partition.Floors
import ChangeBuffer.Proofs.Partition.Words
import ChangeBuffer.Proofs.Partition.Refusal
import ChangeBuffer.Proofs.Partition.Truncation
import ChangeBuffer.Proofs.Partition.Identity
import ChangeBuffer.Proofs.Partition.Binding
import ChangeBuffer.Proofs.Partition.Texts
import ChangeBuffer.Proofs.Run.Forgery
import ChangeBuffer.Proofs.Store.Forgery
import ChangeBuffer.Proofs.Sink.Brackets
import ChangeBuffer.Proofs.Buffer.Reach
import ChangeBuffer.Proofs.Buffer.Plan
import ChangeBuffer.Proofs.Buffer.Brackets
import ChangeBuffer.Proofs.Batch.Storable
import ChangeBuffer.Proofs.Buffer.Acceptance
import ChangeBuffer.Proofs.Store.Clearing
import ChangeBuffer.Proofs.Buffer.Closing
import ChangeBuffer.Proofs.Store.Strays
import ChangeBuffer.Proofs.Buffer.Positions
import ChangeBuffer.Proofs.Decimal.Binary
import ChangeBuffer.Proofs.Equality
import ChangeBuffer.Proofs.Partition.Decimals
import ChangeBuffer.Proofs.Settings.Json
import ChangeBuffer.Proofs.Buffer.Counts
import ChangeBuffer.Proofs.Store.Balance
import ChangeBuffer.Proofs.Buffer.Statistics
