import Iloc.Slot

namespace Iloc

/-- Where a diagnostic points. Reading can run off the end of the tokens, where no line is left to name. -/
inductive Line where
  | number (n : Nat)
  | eof
  deriving DecidableEq, Repr

def Line.text : Line → String
  | .number n => toString n
  | .eof => "EOF"

inductive Problem where
  | invalidIdentifier (word : String)
  | unexpectedCharacter (c : Char)
  | expectedOpcode (found : Token.Kind)
  | unknownOpcode (lexeme : String)
  | unfilled (slot : Slot)
  /-- A remark of the caller, kept as it is. -/
  | remark (text : String)
  deriving DecidableEq, Repr

def Slot.missing : Slot → String
  | .firstOperand => "Missing first operand"
  | .comma => "Missing comma between operands"
  | .secondOperand => "Missing second operand"
  | .sourceOperand => "Missing source operand"
  | .constantValue => "Missing constant value"
  | .outputOperand => "Missing operand after 'output'"
  | .arrow => "Invalid assignment arrow"
  | .destination => "Missing destination register"

def Problem.message : Problem → String
  | .invalidIdentifier word => "Invalid identifier '" ++ word ++ "'"
  | .unexpectedCharacter c => "Unexpected character '" ++ String.singleton c ++ "'"
  | .expectedOpcode found => "Expected Opcode, got " ++ found.name
  | .unknownOpcode lexeme => "Unknown opcode '" ++ lexeme ++ "'"
  | .unfilled slot => slot.missing
  | .remark text => text

structure Diagnostic where
  line : Line
  problem : Problem
  deriving DecidableEq, Repr

namespace Diagnostic

def message (d : Diagnostic) : String := d.problem.message

def text (d : Diagnostic) : String := "Error on line " ++ d.line.text ++ ": " ++ d.message

end Diagnostic

end Iloc
