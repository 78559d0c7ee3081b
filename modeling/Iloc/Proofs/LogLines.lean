import Iloc.Proofs.TextLines
import Iloc.Proofs.Verbosity

namespace Iloc

namespace Log

/-- The one record that takes several lines. The input stands there as it was given. -/
def openingLines (settings : Settings) : List String :=
  ["[iloc_fe][DEBUG] Arguments:",
    "\tVerbosity: " ++
      match settings.verbosity with
      | .error => "ERROR"
      | .warn => "WARN"
      | .info => "INFO"
      | .debug => "DEBUG",
    "\tMode: " ++
      match settings.mode with
      | .scan => "Scan"
      | .parse => "Parse"
      | .ir => "Ir",
    "\tTable: " ++ if settings.table then "true" else "false",
    "\tInfile: " ++ settings.input]

def unreadableLine (input : String) (e : ReadError) : String :=
  "[iloc_fe][ERROR] fatal: unable to read input file `" ++ input ++ "`: " ++
    match e with
    | .missing => "No such file or directory (os error 2)"
    | .isDirectory => "Is a directory (os error 21)"
    | .notText => "stream did not contain valid UTF-8"
    | .system reason => reason

def scannedLine (tokens diagnostics : Nat) : String :=
  "[iloc_fe::frontend::lexer][DEBUG] Scanned " ++ toString tokens ++ " token(s), " ++
    toString diagnostics ++ " diagnostic(s) so far."

def parsedLine (instructions errors : Nat) : String :=
  "[iloc_fe::frontend::parser][DEBUG] Parsed " ++ toString instructions ++ " instruction(s) with " ++
    toString errors ++ " error(s)."

def rejectedLine (errors : Nat) : String :=
  "[iloc_fe][INFO] Rejected program with " ++ toString errors ++ " error(s)."

def acceptedLine (instructions : Nat) : String :=
  "[iloc_fe][INFO] Accepted program with " ++ toString instructions ++ " instruction(s)."

namespace Event

def lines : Event → List String
  | .started settings => openingLines settings
  | .unreadable input e => [unreadableLine input e]
  | .scanned tokens diagnostics => [scannedLine tokens diagnostics]
  | .parsed instructions errors => [parsedLine instructions errors]
  | .rejected errors => [rejectedLine errors]
  | .accepted instructions => [acceptedLine instructions]

theorem unlines_lines (e : Event) : unlines e.lines = e.record ++ "\n" := by
  unfold record message
  rw [← String.toList_inj, toList_unlines]
  cases e with
  | started settings =>
    obtain ⟨verbosity, mode, table, input⟩ := settings
    have flag : toString table = if table then "true" else "false" := by cases table <;> rfl
    unfold lines openingLines
    cases verbosity <;> cases mode <;> simp [target, level, Level.name, Mode.name, flag]
  | unreadable input e =>
    unfold lines unreadableLine
    cases e <;> simp [target, level, Level.name, ReadError.reason]
  | scanned tokens diagnostics =>
    unfold lines scannedLine
    simp [target, level, Level.name]
  | parsed instructions errors =>
    unfold lines parsedLine
    simp [target, level, Level.name]
  | rejected errors =>
    unfold lines rejectedLine
    simp [target, level, Level.name]
  | accepted instructions =>
    unfold lines acceptedLine
    simp [target, level, Level.name]

end Event

theorem transcript_eq (records : List Event) :
    transcript records = unlines (records.flatMap Event.lines) :=
  (unlines_flatMap records fun e _ => e.unlines_lines).symm

end Log

end Iloc
