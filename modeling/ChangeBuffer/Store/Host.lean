import ChangeBuffer.Store.Folder
import ChangeBuffer.Store.Path

/-! # Hosts

The machine on which a store makes its directory.  The directories above it are made too if they
are missing.
-/

namespace ChangeBuffer

/-- What stands at a path. -/
inductive Place
  | file
  | directory
  /-- A directory in which nothing can be made. -/
  | closed
  deriving DecidableEq

structure Host where
  temporary : String
  /-- The directory where paths begin that do not begin at the root, by the names that lead to
  it. -/
  working : List String
  /-- What there is, by the names that lead to it.  Anything else is missing. -/
  places : List (List String × Place)

namespace Host

variable (h : Host)

/-- What stands behind names, beginning at the root. -/
def place? (names : List String) : Option Place :=
  if names = [] then some .directory else h.places.lookup names

/-- Why a way that has come to `here` cannot go on.  `made` says that a directory on the way was
missing: then the file that stands in the way is met by making a directory in its place. -/
def stop? (made : Bool) (here : List String) : Option FileFault :=
  if h.place? here = some .file then some (if made then .alreadyThere else .notDirectory) else none

/-- Why a new directory cannot be reached from `here` by names and made there. -/
def wayFault? (made : Bool) (here : List String) : List String → Option FileFault
  | [] =>
    (h.stop? made here).or (if h.place? here = some .closed then some .missing else none)
  | name :: names =>
    match h.stop? made here with
    | some fault => some fault
    | none =>
      if name = "." then wayFault? made here names
      else if name = ".." then wayFault? made here.dropLast names
      else
        let isMissing := (h.place? (here ++ [name])).isNone
        if isMissing && h.place? here = some .closed then some .missing
        else if Path.maxName < name.utf8ByteSize then some .nameTooLong
        else wayFault? (made || isMissing) (here ++ [name]) names

/-- Why no directory whose name has `size` bytes can be made at the path. -/
def fault? (path : String) (size : Nat) : Option FileFault :=
  if '\x00' ∈ path.toList then some .nulInName
  else if Path.maxSize < Path.sizeWith path size then some .nameTooLong
  else h.wayFault? false (if Path.isAbsolute path then [] else h.working) (Path.names path)

end Host

end ChangeBuffer
