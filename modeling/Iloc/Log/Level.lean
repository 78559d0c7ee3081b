namespace Iloc.Log

inductive Level where
  | error
  | warn
  | info
  | debug
  deriving DecidableEq, Repr

namespace Level

def name : Level → String
  | .error => "ERROR"
  | .warn => "WARN"
  | .info => "INFO"
  | .debug => "DEBUG"

def rank : Level → Nat
  | .error => 0
  | .warn => 1
  | .info => 2
  | .debug => 3

def shownAt (verbosity level : Level) : Bool := level.rank ≤ verbosity.rank

def ofCount : Nat → Level
  | 0 => .error
  | 1 => .warn
  | 2 => .info
  | _ => .debug

end Level

end Iloc.Log
