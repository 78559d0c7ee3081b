import Iloc.CommandLine.Arguments
import Iloc.Report

namespace Iloc.CommandLine

def versionText : String := "iloc-fe 0.1.0\n"

def helpText : String := unlines
  ["iloc-fe 0.1.0",
    "Nicolas 'Montessquio' Suarez <nsuarez@kernelstack.net>",
    "A scanner and parser front end for the ILOC instruction language.",
    "",
    "USAGE:",
    "    iloc-fe [FLAGS] <INPUT>",
    "",
    "FLAGS:",
    "    -h, --help       Prints help information",
    "    -r               scan, parse, and print the IR",
    "    -p               scan, parse, and report errors (default)",
    "    -s               scan and print tokens",
    "    -t, --table      with -r, prints the IR as a compact table",
    "    -V, --version    Prints version information",
    "    -v               Sets the level of verbosity",
    "",
    "ARGS:",
    "    <INPUT>    Sets the ILOC source file to use"]

structure Outcome where
  status : Nat
  output : String
  log : String
  deriving DecidableEq, Repr

def logText (verbosity : Log.Level) (events : List Log.Event) : String :=
  unlines ((events.filter fun e => verbosity.shownAt e.level).map Log.Event.record)

def Outcome.ofSession (settings : Settings) : Except ReadError String → Outcome
  | .error e =>
    { status := 1
      output := ""
      log := logText settings.verbosity [.started settings, .unreadable settings.input e] }
  | .ok source =>
    let r := report settings.mode settings.table source
    { status := if r.accepted then 0 else 1
      output := r.output
      log := logText settings.verbosity (.started settings :: r.events) }

namespace Invocation

def run (read : String → Except ReadError String) : Invocation → Outcome
  | .help => ⟨0, helpText, ""⟩
  | .version => ⟨0, versionText, ""⟩
  | .misuse m => ⟨1, "", m.message⟩
  | .session settings => .ofSession settings (read settings.input)

end Invocation

def session (arguments : List String) (directory : Directory) : Outcome :=
  (Invocation.ofArguments arguments).run directory.read

end Iloc.CommandLine
