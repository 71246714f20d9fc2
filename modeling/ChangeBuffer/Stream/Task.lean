import ChangeBuffer.Settings.Json
import ChangeBuffer.Store.Host

/-! # Tasks -/

namespace ChangeBuffer

/-- What a task knows of itself: its name, its place among parallel tasks, the configuration of the
job that it belongs to, and the host that it runs on. -/
structure Task where
  name : String
  index : Int
  parallelism : Int
  job : List (String × Json)
  host : Host

namespace Task

variable (t : Task)

def label : String := s!"{t.name}[{t.index}/{t.parallelism}]"

def settings : Except SettingsFault Settings :=
  Settings.ofJob (.default t.host.temporary) t.job

end Task

end ChangeBuffer
