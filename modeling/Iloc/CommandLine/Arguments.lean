import Iloc.Settings

namespace Iloc.CommandLine

inductive Flag where
  | scan
  | parse
  | ir
  | table
  | verbose
  | help
  | version
  deriving DecidableEq, Repr

namespace Flag

def ofLetter? : Char → Option Flag
  | 's' => some .scan
  | 'p' => some .parse
  | 'r' => some .ir
  | 't' => some .table
  | 'v' => some .verbose
  | 'h' => some .help
  | 'V' => some .version
  | _ => none

def ofName? : String → Option Flag
  | "table" => some .table
  | "help" => some .help
  | "version" => some .version
  | _ => none

def spelling : Flag → String
  | .scan => "-s"
  | .parse => "-p"
  | .ir => "-r"
  | .table => "--table"
  | .verbose => "-v"
  | .help => "--help"
  | .version => "--version"

end Flag

inductive Item where
  | flag (f : Flag)
  | operand (text : String)
  | unknown (spelling : String)
  deriving DecidableEq, Repr

namespace Item

def ofLetter (c : Char) : Item :=
  match Flag.ofLetter? c with
  | some f => .flag f
  | none => .unknown ("-" ++ String.singleton c)

def ofName (name : String) : Item :=
  match Flag.ofName? name with
  | some f => .flag f
  | none => .unknown ("--" ++ name)

/-- A long name stands between the dashes, however many, and an equals sign; what follows that is ignored. -/
def ofArgument (argument : String) : List Item :=
  match argument.toList with
  | '-' :: '-' :: rest => [ofName (String.ofList ((rest.dropWhile (· = '-')).takeWhile (· ≠ '=')))]
  | '-' :: c :: letters => ofLetter c :: letters.map ofLetter
  | _ => [.operand argument]

def ofArguments : List String → List Item
  | [] => []
  | argument :: rest =>
    if argument = "--" then rest.map .operand else ofArgument argument ++ ofArguments rest

end Item

inductive Misuse where
  | unexpected (argument : String)
  | missingInput
  | repeated (flag : Flag)
  deriving DecidableEq, Repr

def Misuse.message : Misuse → String
  | .unexpected argument =>
    "error: Found argument '" ++ argument ++ "' which wasn't expected, or isn't valid in this context"
  | .missingInput => "error: The following required arguments were not provided:"
  | .repeated flag =>
    "error: The argument '" ++ flag.spelling ++
      "' was provided more than once, but cannot be used multiple times"

inductive Invocation where
  | help
  | version
  | misuse (m : Misuse)
  | session (settings : Settings)
  deriving DecidableEq, Repr

structure Gathered where
  flags : List Flag
  input : Option String
  deriving DecidableEq, Repr

namespace Gathered

def mode (g : Gathered) : Mode :=
  if .ir ∈ g.flags then .ir
  else if .parse ∈ g.flags then .parse
  else if .scan ∈ g.flags then .scan
  else .parse

def repeated? (g : Gathered) : Option Flag :=
  [.scan, .parse, .ir, .table].find? fun f => 1 < g.flags.count f

def settings (g : Gathered) (input : String) : Settings where
  verbosity := .ofCount (g.flags.count .verbose)
  mode := g.mode
  table := decide (.table ∈ g.flags)
  input := input

def finish (g : Gathered) : Invocation :=
  match g.input with
  | none => .misuse .missingInput
  | some input =>
    match g.repeated? with
    | some f => .misuse (.repeated f)
    | none => .session (g.settings input)

end Gathered

namespace Invocation

/-- Help, the version and an unexpected argument end the reading where they are met. -/
def ofItems (g : Gathered) : List Item → Invocation
  | [] => g.finish
  | .flag .help :: _ => .help
  | .flag .version :: _ => .version
  | .flag f :: rest => ofItems { g with flags := g.flags ++ [f] } rest
  | .unknown spelling :: _ => .misuse (.unexpected spelling)
  | .operand text :: rest =>
    match g.input with
    | none => ofItems { g with input := some text } rest
    | some _ => .misuse (.unexpected text)

def ofArguments (arguments : List String) : Invocation :=
  ofItems ⟨[], none⟩ (Item.ofArguments arguments)

end Invocation

end Iloc.CommandLine
