import Iloc.Directory
import Iloc.Settings

namespace Iloc.Log

inductive Event where
  | started (settings : Settings)
  | unreadable (input : String) (error : ReadError)
  | scanned (tokens diagnostics : Nat)
  | parsed (instructions errors : Nat)
  | rejected (errors : Nat)
  | accepted (instructions : Nat)
  deriving DecidableEq, Repr

namespace Event

def level : Event → Level
  | .started _ => .debug
  | .unreadable _ _ => .error
  | .scanned _ _ => .debug
  | .parsed _ _ => .debug
  | .rejected _ => .info
  | .accepted _ => .info

def target : Event → String
  | .scanned _ _ => "iloc_fe::frontend::lexer"
  | .parsed _ _ => "iloc_fe::frontend::parser"
  | _ => "iloc_fe"

def message : Event → String
  | .started settings =>
    "Arguments:\n\tVerbosity: " ++ settings.verbosity.name ++ "\n\tMode: " ++ settings.mode.name ++
      "\n\tTable: " ++ toString settings.table ++ "\n\tInfile: " ++ settings.input
  | .unreadable input error =>
    "fatal: unable to read input file `" ++ input ++ "`: " ++ error.reason
  | .scanned tokens diagnostics =>
    "Scanned " ++ toString tokens ++ " token(s), " ++ toString diagnostics ++ " diagnostic(s) so far."
  | .parsed instructions errors =>
    "Parsed " ++ toString instructions ++ " instruction(s) with " ++ toString errors ++ " error(s)."
  | .rejected errors => "Rejected program with " ++ toString errors ++ " error(s)."
  | .accepted instructions => "Accepted program with " ++ toString instructions ++ " instruction(s)."

def record (e : Event) : String := "[" ++ e.target ++ "][" ++ e.level.name ++ "] " ++ e.message

end Event

end Iloc.Log
