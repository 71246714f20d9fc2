import ChangeBuffer.Store.Disk
import ChangeBuffer.Store.Memory

/-! # The store that settings ask for -/

namespace ChangeBuffer

inductive Backend
  | memory (store : MemoryStore)
  | disk (store : DiskStore)

namespace Backend

/-- A new store.  `path` is the directory of a store on disk. -/
def create (settings : Settings) (host : Host) (path : String) : Except StoreError Backend :=
  match settings.store with
  | .memory => .ok (memory .empty)
  | .disk => (DiskStore.create settings.spill host path).map disk

end Backend

instance : Store Backend where
  put
    | .memory s, key, row => let (s, r) := Store.put s key row; (.memory s, r)
    | .disk s, key, row => let (s, r) := Store.put s key row; (.disk s, r)
  remove
    | .memory s, key => let (s, r) := Store.remove s key; (.memory s, r)
    | .disk s, key => let (s, r) := Store.remove s key; (.disk s, r)
  scan
    | .memory s, stem => Store.scan s stem
    | .disk s, stem => Store.scan s stem
  clear
    | .memory s => let (s, r) := Store.clear s; (.memory s, r)
    | .disk s => let (s, r) := Store.clear s; (.disk s, r)
  sizeHint
    | .memory s => Store.sizeHint s
    | .disk s => Store.sizeHint s
  tally
    | .memory s => Store.tally s
    | .disk s => Store.tally s

end ChangeBuffer
