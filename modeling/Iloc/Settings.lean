import Iloc.Log.Level

namespace Iloc

inductive Mode where
  | scan
  | parse
  | ir
  deriving DecidableEq, Repr

def Mode.name : Mode → String
  | .scan => "Scan"
  | .parse => "Parse"
  | .ir => "Ir"

structure Settings where
  verbosity : Log.Level
  mode : Mode
  table : Bool
  input : String
  deriving DecidableEq, Repr

end Iloc
