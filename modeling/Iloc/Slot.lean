import Iloc.Opcode
import Iloc.Token

namespace Iloc

inductive Slot where
  | firstOperand
  | comma
  | secondOperand
  | sourceOperand
  | constantValue
  | outputOperand
  | arrow
  | destination
  deriving DecidableEq, Repr

namespace Slot

def kind : Slot → Token.Kind
  | .firstOperand => .register
  | .comma => .comma
  | .secondOperand => .register
  | .sourceOperand => .register
  | .constantValue => .constant
  | .outputOperand => .register
  | .arrow => .arrow
  | .destination => .register

def label? : Slot → Option String
  | .firstOperand => some "src1"
  | .comma => none
  | .secondOperand => some "src2"
  | .sourceOperand => some "src"
  | .constantValue => some "val"
  | .outputOperand => some "src"
  | .arrow => none
  | .destination => some "dest"

def isOperand (slot : Slot) : Bool := slot.label?.isSome

end Slot

namespace Opcode

def slots : Opcode → List Slot
  | .binary _ => [.firstOperand, .comma, .secondOperand, .arrow, .destination]
  | .access _ => [.sourceOperand, .arrow, .destination]
  | .loadI => [.constantValue, .arrow, .destination]
  | .output => [.outputOperand]
  | .nop => []

def operandLabels (op : Opcode) : List String := op.slots.filterMap Slot.label?

end Opcode

end Iloc
