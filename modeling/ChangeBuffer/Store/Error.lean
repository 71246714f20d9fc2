import ChangeBuffer.Codec.Decoder
import ChangeBuffer.Key
import ChangeBuffer.Run.Damage
import ChangeBuffer.Settings.Basic

/-! # Errors of stores -/

namespace ChangeBuffer

/-- Why a store fails. -/
inductive StoreError
  | settings (fault : SettingsFault)
  | file (fault : FileFault)
  | undecodable (fault : DecodeError)
  | corrupted (path : String) (damage : Damage)
  | malformedKey (fault : OverlongPath)
  | oversized (part : RecordPart) (length : Nat)
  deriving DecidableEq

def StoreError.message : StoreError → String
  | settings fault => "spill i/o error: " ++ fault.message
  | file fault => "spill i/o error: " ++ fault.message
  | undecodable fault => "spill serialization error: " ++ fault.message
  | corrupted path damage => "corrupted spill run " ++ path ++ ": " ++ damage.message
  | malformedKey fault => "malformed buffer key: " ++ fault.message
  | oversized part length =>
    "spill record " ++ part.text ++ s!" of {length} bytes exceeds the run format limit"

end ChangeBuffer
