import Iloc.Slot

namespace Iloc

inductive Instruction where
  | binary (op : BinaryOp) (left right target : String)
  | access (op : Access) (source target : String)
  | loadI (value target : String)
  | output (source : String)
  | nop
  deriving DecidableEq, Repr

namespace Instruction

def opcode : Instruction → Opcode
  | .binary op _ _ _ => .binary op
  | .access op _ _ => .access op
  | .loadI _ _ => .loadI
  | .output _ => .output
  | .nop => .nop

def sources : Instruction → List String
  | .binary _ left right _ => [left, right]
  | .access _ source _ => [source]
  | .loadI value _ => [value]
  | .output source => [source]
  | .nop => []

def destination? : Instruction → Option String
  | .binary _ _ _ target => some target
  | .access _ _ target => some target
  | .loadI _ target => some target
  | .output _ => none
  | .nop => none

def operands (i : Instruction) : List String := i.sources ++ i.destination?.toList

def ofOperands? : Opcode → List String → Option Instruction
  | .binary op, [left, right, target] => some (.binary op left right target)
  | .access op, [source, target] => some (.access op source target)
  | .loadI, [value, target] => some (.loadI value target)
  | .output, [source] => some (.output source)
  | .nop, [] => some .nop
  | _, _ => none

theorem ofOperands?_operands (i : Instruction) : ofOperands? i.opcode i.operands = some i := by
  cases i <;> rfl

theorem ofOperands?_eq_some_iff {op : Opcode} {operands : List String} {i : Instruction} :
    ofOperands? op operands = some i ↔ i.opcode = op ∧ i.operands = operands := by
  constructor
  · intro h
    unfold ofOperands? at h
    split at h <;> cases h <;> exact ⟨rfl, rfl⟩
  · rintro ⟨rfl, rfl⟩
    exact ofOperands?_operands i

def labelled (i : Instruction) : List (String × String) := i.opcode.operandLabels.zip i.operands

end Instruction

structure Node where
  line : Nat
  instruction : Instruction
  deriving DecidableEq, Repr

namespace Node

def opcode (n : Node) : Opcode := n.instruction.opcode

def text (n : Node) : String :=
  "Line " ++ toString n.line ++ ": " ++ n.opcode.name ++
    String.join (n.instruction.labelled.map fun (label, operand) => "\n  " ++ label ++ ": " ++ operand)

end Node

end Iloc
