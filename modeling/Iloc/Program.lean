import Iloc.Filling
import Iloc.Instruction

namespace Iloc

structure Program where
  nodes : List Node
  diagnostics : List Diagnostic
  deriving DecidableEq, Repr

namespace Program

instance : Append Program where
  append p q := ⟨p.nodes ++ q.nodes, p.diagnostics ++ q.diagnostics⟩

@[simp]
theorem nodes_append (p q : Program) : (p ++ q).nodes = p.nodes ++ q.nodes := rfl

@[simp]
theorem diagnostics_append (p q : Program) :
    (p ++ q).diagnostics = p.diagnostics ++ q.diagnostics := rfl

def empty : Program := ⟨[], []⟩

def report (t : Token) (problem : Problem) : Program := ⟨[], [⟨.number t.line, problem⟩]⟩

def ofFilling (line : Nat) (op : Opcode) (f : Filling) : Program where
  nodes := ((f.operands.bind (Instruction.ofOperands? op)).map (Node.mk line)).toList
  diagnostics := f.diagnostics

def start (t : Token) (rest : List Token) : Program × List Token :=
  if t.kind = .opcode then
    match Opcode.ofName? t.lexeme with
    | some op => (ofFilling t.line op (fill op.slots rest), (fill op.slots rest).rest)
    | none => (report t (.unknownOpcode t.lexeme), rest)
  else (report t (.expectedOpcode t.kind), rest)

theorem start_rest_suffix (t : Token) (rest : List Token) : (start t rest).2 <:+ rest := by
  unfold start
  split
  · split
    · exact fill_rest_suffix _ rest
    · exact List.suffix_refl rest
  · exact List.suffix_refl rest

/-- Reads tokens in which comments count as misplaced. -/
def ofTokens : List Token → Program
  | [] => empty
  | t :: rest => (start t rest).1 ++ ofTokens (start t rest).2
  termination_by tokens => tokens.length
  decreasing_by exact Nat.lt_succ_of_le (start_rest_suffix t rest).length_le

def parse (tokens : List Token) : Program := ofTokens (Token.withoutComments tokens)

end Program

end Iloc
