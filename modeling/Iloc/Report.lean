import Iloc.Analysis
import Iloc.Log.Event
import Iloc.Table

namespace Iloc

structure Report where
  accepted : Bool
  output : String
  events : List Log.Event
  deriving DecidableEq, Repr

def Scan.event (s : Scan) : Log.Event := .scanned s.tokens.length s.diagnostics.length

def Program.event (p : Program) : Log.Event := .parsed p.nodes.length p.diagnostics.length

namespace Analysis

def accepted (a : Analysis) : Bool := a.diagnostics.isEmpty

def verdict (a : Analysis) : Log.Event :=
  if a.accepted then .accepted a.nodes.length else .rejected a.diagnostics.length

end Analysis

namespace Report

def listing (mode : Mode) (asTable : Bool) (nodes : List Node) : String :=
  match mode with
  | .ir => if asTable then table nodes else unlines (nodes.map Node.text)
  | .scan | .parse => unlines ["VALID ILOC PROGRAM"]

def ofScan (s : Scan) : Report where
  accepted := s.diagnostics.isEmpty
  output := unlines (s.diagnostics.map Diagnostic.text ++ s.tokens.map Token.text)
  events := [s.event]

def ofAnalysis (mode : Mode) (asTable : Bool) (a : Analysis) : Report where
  accepted := a.accepted
  output :=
    if a.accepted then listing mode asTable a.nodes else unlines (a.diagnostics.map Diagnostic.text)
  events := [a.scan.event, a.program.event, a.verdict]

end Report

def report (mode : Mode) (asTable : Bool) (source : String) : Report :=
  match mode with
  | .scan => .ofScan (scan source)
  | .parse | .ir => .ofAnalysis mode asTable (analyze source)

end Iloc
