/-! # Paths

A path is a text of names with slashes between them.  Neither a name nor a whole path may be too
long.
-/

namespace ChangeBuffer.Path

def maxName : Nat := 255

def maxSize : Nat := 4095

/-- The texts between the slashes of a path. -/
def split : List Char → List (List Char)
  | [] => [[]]
  | c :: cs =>
    if c = '/' then [] :: split cs
    else match split cs with
      | [] => [[c]]
      | name :: names => (c :: name) :: names

/-- The names of a path.  Several slashes in a row are as good as one. -/
def names (path : String) : List String :=
  ((split path.toList).filter (!·.isEmpty)).map String.ofList

def isAbsolute (path : String) : Bool := path.toList.head? = some '/'

/-- The number of bytes of a path with a name of `size` bytes behind it, and a slash between them
unless the path ends in one. -/
def sizeWith (path : String) (size : Nat) : Nat :=
  path.utf8ByteSize + (if path.toList.getLast? = some '/' then 0 else 1) + size

end ChangeBuffer.Path
