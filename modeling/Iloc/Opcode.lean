namespace Iloc

/-- Opcodes of the shape `op r1, r2 => r3`. -/
inductive BinaryOp where
  | add
  | sub
  | mult
  | lshift
  | rshift
  deriving DecidableEq, Repr

/-- Opcodes of the shape `op r1 => r2`. -/
inductive Access where
  | load
  | store
  deriving DecidableEq, Repr

inductive Opcode where
  | binary (op : BinaryOp)
  | access (op : Access)
  | loadI
  | output
  | nop
  deriving DecidableEq, Repr

def BinaryOp.name : BinaryOp → String
  | .add => "add"
  | .sub => "sub"
  | .mult => "mult"
  | .lshift => "lshift"
  | .rshift => "rshift"

def Access.name : Access → String
  | .load => "load"
  | .store => "store"

namespace Opcode

def name : Opcode → String
  | .binary op => op.name
  | .access op => op.name
  | .loadI => "loadI"
  | .output => "output"
  | .nop => "nop"

def all : List Opcode :=
  [.access .load, .loadI, .access .store, .binary .add, .binary .sub, .binary .mult, .binary .lshift,
    .binary .rshift, .output, .nop]

theorem mem_all (op : Opcode) : op ∈ all := by
  cases op with
  | binary op => cases op <;> decide
  | access op => cases op <;> decide
  | loadI => decide
  | output => decide
  | nop => decide

def ofName? (name : String) : Option Opcode := all.find? fun op => op.name = name

theorem ofName?_name (op : Opcode) : ofName? op.name = some op := by
  have all_found : ∀ op ∈ all, ofName? op.name = some op := by decide
  exact all_found op (mem_all op)

theorem name_of_ofName? {name : String} {op : Opcode} (h : ofName? name = some op) :
    op.name = name := by
  simpa using List.find?_some h

end Opcode

end Iloc
