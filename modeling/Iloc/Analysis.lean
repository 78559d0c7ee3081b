import Iloc.Program
import Iloc.Scan

namespace Iloc

structure Analysis where
  scan : Scan
  program : Program
  deriving DecidableEq, Repr

namespace Analysis

def nodes (a : Analysis) : List Node := a.program.nodes

def diagnostics (a : Analysis) : List Diagnostic := a.scan.diagnostics ++ a.program.diagnostics

end Analysis

def Analysis.ofScan (s : Scan) : Analysis := ⟨s, Program.parse s.tokens⟩

def analyze (source : String) : Analysis := .ofScan (scan source)

end Iloc
