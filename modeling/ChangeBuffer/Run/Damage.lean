import ChangeBuffer.Store.Folder

/-! # Damage of runs

What can be wrong with the file of a run, and with records that do not fit into one.
-/

namespace ChangeBuffer

inductive HeaderFault
  | short
  | isDirectory
  deriving DecidableEq

/-- What is wrong with the file of a run.  Offsets are those of the records. -/
inductive Damage
  | unreadableHeader (fault : HeaderFault)
  | badMagic
  | unknownVersion (version : Nat)
  | truncated (offset : Nat)
  | overrun (length offset : Nat)
  | mismatch (offset : Nat)
  | disorder
  deriving DecidableEq

/-- The text of a read that meets the end of the file. -/
def shortRead : String := "failed to fill whole buffer"

def Damage.message : Damage → String
  | unreadableHeader .short => "unreadable header: " ++ shortRead
  | unreadableHeader .isDirectory => "unreadable header: " ++ FileFault.isDirectory.message
  | badMagic => "bad magic"
  | unknownVersion version => s!"unsupported version {version}"
  | truncated offset => s!"truncated record at offset {offset}: " ++ shortRead
  | overrun length offset => s!"record of {length} bytes at offset {offset} overruns file"
  | mismatch offset => s!"checksum mismatch at offset {offset}"
  | disorder => "keys appended out of order"

inductive RecordPart
  | key
  | value
  deriving DecidableEq

def RecordPart.text : RecordPart → String
  | key => "key"
  | value => "value"

end ChangeBuffer
