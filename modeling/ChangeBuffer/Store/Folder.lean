import ChangeBuffer.Bytes.Basic
import ChangeBuffer.SortedMap

/-! # Folders

The directory of a store: files with their contents, and directories that stand in their way.
Nothing else keeps a file from being created, written and opened: there is space on the disk, and as
many files can be open at once as are read.
-/

namespace ChangeBuffer

inductive Node
  | file (content : Bytes)
  | directory
  deriving DecidableEq

/-- Why a file or directory cannot be created, read or removed. -/
inductive FileFault
  | missing
  | isDirectory
  | alreadyThere
  | notDirectory
  | nameTooLong
  | nulInName
  deriving DecidableEq

def FileFault.message : FileFault → String
  | missing => "No such file or directory (os error 2)"
  | isDirectory => "Is a directory (os error 21)"
  | alreadyThere => "File exists (os error 17)"
  | notDirectory => "Not a directory (os error 20)"
  | nameTooLong => "File name too long (os error 36)"
  | nulInName => "file name contained an unexpected NUL byte"

/-- What stands in a directory, by name. -/
abbrev Folder := SortedMap String Node

namespace Folder

/-- Puts a file under a name where no directory stands. -/
def write (f : Folder) (name : String) (content : Bytes) : Except FileFault Folder :=
  match f.find? name with
  | some .directory => .error .isDirectory
  | _ => .ok (f.insert name (.file content))

def remove (f : Folder) (name : String) : Except FileFault Folder :=
  match f.find? name with
  | none => .error .missing
  | some .directory => .error .isDirectory
  | some (.file _) => .ok (f.erase name)

/-- Removes a file that may be missing. -/
def discard (f : Folder) (name : String) : Except FileFault Folder :=
  match f.remove name with
  | .error .missing => .ok f
  | result => result

end Folder

end ChangeBuffer
