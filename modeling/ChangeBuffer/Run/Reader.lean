import ChangeBuffer.Run.Writer

/-! # Reading runs

A scan gives the entries of a run whose keys begin with given bytes.  It begins at the last
indexed record that cannot lie behind them, and ends with the first record that does, or with the
first damage.
-/

namespace ChangeBuffer.Run

/-- The entries of the records in `bs` whose keys begin with `stem`, up to the first damage. -/
def readFrom (stem : Bytes) (offset : Nat) (bs : Bytes) : List (Except Damage Entry) :=
  if bs.isEmpty then []
  else match _h : Entry.read offset bs with
    | .error damage => [.error damage]
    | .ok (e, rest) =>
      if e.key < stem then readFrom stem (offset + e.size) rest
      else if stem.isPrefixOf e.key then .ok e :: readFrom stem (offset + e.size) rest
      else []
termination_by bs.length
decreasing_by all_goals exact Entry.length_lt_of_read _h

/-- The damage of the header at the front of a file. -/
def headerDamage? (content : Bytes) : Option Damage :=
  if content.length < header.length then some (.unreadableHeader .short)
  else if content.take 4 ≠ magic then some .badMagic
  else
    let version := Word.value ((content.drop 4).take 2)
    if version ≠ formatVersion then some (.unknownVersion version) else none

variable (r : Run)

/-- Where to begin the search for keys that begin with `stem`. -/
def seek (stem : Bytes) : Nat :=
  match (r.index.takeWhile fun (key, _) => !(stem < key)).getLast? with
  | some (_, offset) => offset
  | none => header.length

/-- The entries of the run whose keys begin with `stem`, from the run's file under `path`. -/
def scan (folder : Folder) (path : String) (stem : Bytes) :
    Except StoreError (List (Except StoreError Entry)) :=
  match folder.find? r.name with
  | none => .error (.file .missing)
  | some .directory => .error (.corrupted path (.unreadableHeader .isDirectory))
  | some (.file content) =>
    match headerDamage? content with
    | some damage => .error (.corrupted path damage)
    | none =>
      let start := r.seek stem
      .ok ((readFrom stem start (content.drop start)).map
        fun item => item.mapError (StoreError.corrupted path))

end ChangeBuffer.Run
