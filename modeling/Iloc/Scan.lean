import Iloc.Diagnostic
import Iloc.Segment

namespace Iloc

namespace Segment

def lineBreaks : Segment → Nat
  | .newline => 1
  | _ => 0

def isRegister : List Char → Bool
  | [] => false
  | c :: digits => c == 'r' && !digits.isEmpty && digits.all Char.isDigit

def wordKind? (letters : List Char) : Option Token.Kind :=
  if (Opcode.ofName? (String.ofList letters)).isSome then some .opcode
  else if isRegister letters then some .register
  else none

def kind? : Segment → Option Token.Kind
  | .comment _ => some .comment
  | .arrow => some .arrow
  | .comma => some .comma
  | .number _ => some .constant
  | .word letters => wordKind? letters
  | .newline | .blank _ | .stray _ => none

def token? (line : Nat) (s : Segment) : Option Token :=
  s.kind?.map fun kind => ⟨line, kind, String.ofList s.text⟩

def problem? : Segment → Option Problem
  | .word letters =>
    if (wordKind? letters).isSome then none else some (.invalidIdentifier (String.ofList letters))
  | .stray c => some (.unexpectedCharacter c)
  | _ => none

def diagnostic? (line : Nat) (s : Segment) : Option Diagnostic :=
  s.problem?.map fun problem => ⟨.number line, problem⟩

def numbered (line : Nat) : List Segment → List (Nat × Segment)
  | [] => []
  | s :: rest => (line, s) :: numbered (line + s.lineBreaks) rest

end Segment

structure Scan where
  tokens : List Token
  diagnostics : List Diagnostic
  deriving DecidableEq, Repr

def Scan.ofNumbered (pieces : List (Nat × Segment)) : Scan where
  tokens := pieces.filterMap fun (line, s) => s.token? line
  diagnostics := pieces.filterMap fun (line, s) => s.diagnostic? line

def scan (source : String) : Scan := .ofNumbered (Segment.numbered 1 (segments source.toList))

/-- A scanner on its way through a text. Its diagnostics stand in a list that others share. -/
structure Scanner where
  line : Nat
  tokens : List Token
  diagnostics : List Diagnostic

namespace Scanner

def take (s : Scanner) (segment : Segment) : Scanner where
  line := s.line + segment.lineBreaks
  tokens := s.tokens ++ (segment.token? s.line).toList
  diagnostics := s.diagnostics ++ (segment.diagnostic? s.line).toList

def run (s : Scanner) : List Char → Scanner
  | [] => s
  | c :: cs => run (s.take (Segment.first c cs).1) (Segment.first c cs).2
  termination_by cs => cs.length
  decreasing_by exact Nat.lt_succ_of_le (Segment.first_length_le c cs)

def result (s : Scanner) : Scan := ⟨s.tokens, s.diagnostics⟩

end Scanner

def scanInto (collected : List Diagnostic) (source : String) : Scan :=
  (Scanner.run ⟨1, [], collected⟩ source.toList).result

def scanAll (collected : List Diagnostic) : List String → List Scan
  | [] => []
  | source :: rest => scanInto collected source :: scanAll (scanInto collected source).diagnostics rest

end Iloc
