import Iloc.Proofs.Locality
import Iloc.Proofs.Printing

namespace Iloc

def Diagnostic.lacksOperand (d : Diagnostic) : Bool :=
  match d.problem with
  | .unfilled slot => slot.isOperand
  | _ => false

namespace Program

def operandReports (p : Program) : List Diagnostic := p.diagnostics.filter Diagnostic.lacksOperand

def readings : List Token → List (Token × Program)
  | [] => []
  | t :: rest => if t.kind = .opcode then (t, (start t rest).1) :: readings rest else readings rest

/-- An opcode has its node and lacks nothing, or it has none for want of one to three operands. -/
inductive Accounted (t : Token) (p : Program) : Prop where
  | kept {n : Node} : p.nodes = [n] → n.line = t.line → n.opcode.name = t.lexeme →
      p.operandReports = [] → Accounted t p
  | lost : p.nodes = [] → 1 ≤ p.operandReports.length → p.operandReports.length ≤ 3 → Accounted t p

end Program

section Filling

variable (slots : List Slot) (tokens : List Token)

theorem filter_lacksOperand_missed (slot : Slot) (line : Line) (f : Filling) :
    (f.missed slot line).diagnostics.filter Diagnostic.lacksOperand =
      if slot.isOperand then
        ⟨line, .unfilled slot⟩ :: f.diagnostics.filter Diagnostic.lacksOperand
      else f.diagnostics.filter Diagnostic.lacksOperand :=
  List.filter_cons

theorem operands_fill_eq_none_iff :
    (fill slots tokens).operands = none ↔
      (fill slots tokens).diagnostics.filter Diagnostic.lacksOperand ≠ [] := by
  induction slots generalizing tokens with
  | nil => simp [fill, Filling.done]
  | cons slot slots ih =>
    rcases fill_cons_cases slot slots tokens with ⟨t, rest, rfl, same, step⟩ | ⟨-, step⟩
    · rw [step, Filling.diagnostics_taken, Filling.operands_taken, ← ih rest]
      split <;> simp
    · rw [step, filter_lacksOperand_missed, Filling.missed]
      split
      · simp
      · exact ih tokens

theorem length_filter_lacksOperand_fill :
    ((fill slots tokens).diagnostics.filter Diagnostic.lacksOperand).length ≤
      slots.countP Slot.isOperand := by
  induction slots generalizing tokens with
  | nil => simp [fill, Filling.done]
  | cons slot slots ih =>
    rw [List.countP_cons]
    rcases fill_cons_cases slot slots tokens with ⟨t, rest, rfl, same, step⟩ | ⟨-, step⟩
    · have later := ih rest
      rw [step, Filling.diagnostics_taken]
      omega
    · have later := ih tokens
      rw [step, filter_lacksOperand_missed]
      split
      · rw [List.length_cons]
        omega
      · omega

end Filling

theorem Opcode.countP_isOperand_slots (op : Opcode) : op.slots.countP Slot.isOperand ≤ 3 := by
  cases op <;> simp only [slots] <;> decide

theorem Instruction.exists_of_length {op : Opcode} {operands : List String}
    (length : operands.length = op.slots.countP Slot.isOperand) :
    ∃ i, ofOperands? op operands = some i := by
  cases op with
  | binary op =>
    obtain ⟨left, right, target, rfl⟩ := List.length_eq_three.mp (length.trans rfl)
    exact ⟨.binary op left right target, rfl⟩
  | access op =>
    obtain ⟨source, target, rfl⟩ := List.length_eq_two.mp (length.trans rfl)
    exact ⟨.access op source target, rfl⟩
  | loadI =>
    obtain ⟨value, target, rfl⟩ := List.length_eq_two.mp (length.trans rfl)
    exact ⟨.loadI value target, rfl⟩
  | output =>
    obtain ⟨source, rfl⟩ := List.length_eq_one_iff.mp (length.trans rfl)
    exact ⟨.output source, rfl⟩
  | nop =>
    obtain rfl := List.length_eq_zero_iff.mp (length.trans rfl)
    exact ⟨.nop, rfl⟩

namespace Program

theorem operandReports_start_of_names {op : Opcode} {t : Token} (names : t.Names op)
    (rest : List Token) : (start t rest).1.operandReports =
      (fill op.slots rest).diagnostics.filter Diagnostic.lacksOperand := by
  rw [start_of_names names]
  rfl

/-- A node is lost exactly when an operand is missing. -/
theorem accounted_start {op : Opcode} {t : Token} (names : t.Names op) (rest : List Token) :
    Accounted t (start t rest).1 := by
  have reports := operandReports_start_of_names names rest
  have lack := operands_fill_eq_none_iff op.slots rest
  cases found : (fill op.slots rest).operands with
  | some operands =>
    have length : operands.length = op.slots.countP Slot.isOperand := by
      rw [List.countP_eq_length_filter]
      exact (fill_operands found).length_eq.symm
    obtain ⟨i, built⟩ := Instruction.exists_of_length length
    have node : (start t rest).1.nodes = [⟨t.line, i⟩] := by
      simp [nodes_start_of_names names, found, built]
    have opcode : i.opcode = op := (Instruction.ofOperands?_eq_some_iff.mp built).1
    apply Accounted.kept node rfl
    · rw [Node.opcode, opcode, names.2]
    · rw [reports]
      simpa [found] using lack
  | none =>
    apply Accounted.lost
    · rw [nodes_start_of_names names, found]
      rfl
    · rw [reports]
      exact List.length_pos_iff.mpr (lack.mp found)
    · rw [reports]
      exact (length_filter_lacksOperand_fill op.slots rest).trans op.countP_isOperand_slots

section Readings

variable (tokens : List Token)

theorem map_fst_readings : (readings tokens).map Prod.fst = tokens.filter (·.kind = .opcode) := by
  induction tokens with
  | nil => rfl
  | cons t rest ih =>
    rw [readings, List.filter_cons]
    by_cases opcode : t.kind = .opcode <;> simp [opcode, ih]

/-- What a program is made of token by token, and only by its opcodes, is all in the readings. -/
theorem flatMap_readings {α : Type} {part : Program → List α} (none : part empty = [])
    (split : ∀ t rest, part (ofTokens (t :: rest)) = part (start t rest).1 ++ part (ofTokens rest))
    (passed : ∀ t kind, part (report t (.expectedOpcode kind)) = []) :
    (readings tokens).flatMap (fun r => part r.2) = part (ofTokens tokens) := by
  induction tokens with
  | nil => rw [ofTokens_nil, none, readings, List.flatMap_nil]
  | cons t rest ih =>
    rw [split, readings]
    by_cases opcode : t.kind = .opcode
    · rw [if_pos opcode, List.flatMap_cons, ih]
    · rw [if_neg opcode, start_of_kind_ne opcode, passed, ih, List.nil_append]

theorem flatMap_nodes_readings :
    (readings tokens).flatMap (fun r => r.2.nodes) = (ofTokens tokens).nodes :=
  flatMap_readings tokens rfl nodes_ofTokens_cons fun _ _ => rfl

theorem flatMap_operandReports_readings :
    (readings tokens).flatMap (fun r => r.2.operandReports) = (ofTokens tokens).operandReports := by
  apply flatMap_readings tokens rfl
  · exact filter_diagnostics_ofTokens_cons fun _ _ => rfl
  · intro t kind
    rfl

end Readings

theorem accounted_of_mem_readings {tokens : List Token}
    (valid : ∀ t ∈ tokens, t.kind.Lexeme t.lexeme) : ∀ r ∈ readings tokens, Accounted r.1 r.2 := by
  induction tokens with
  | nil => simp [readings]
  | cons t rest ih =>
    obtain ⟨first, valid⟩ := List.forall_mem_cons.mp valid
    rw [readings]
    by_cases opcode : t.kind = .opcode
    · rw [opcode] at first
      obtain ⟨op, name⟩ := first
      rw [if_pos opcode, List.forall_mem_cons]
      exact ⟨accounted_start ⟨opcode, name⟩ rest, ih valid⟩
    · rw [if_neg opcode]
      exact ih valid

theorem tally_of_accounted {readings : List (Token × Program)}
    (accounted : ∀ r ∈ readings, Accounted r.1 r.2) :
    (readings.flatMap fun r => r.2.nodes).length ≤ readings.length ∧
      readings.length - (readings.flatMap fun r => r.2.nodes).length ≤
        (readings.flatMap fun r => r.2.operandReports).length ∧
      (readings.flatMap fun r => r.2.operandReports).length ≤
        3 * (readings.length - (readings.flatMap fun r => r.2.nodes).length) := by
  induction readings with
  | nil => simp
  | cons r readings ih =>
    obtain ⟨first, accounted⟩ := List.forall_mem_cons.mp accounted
    have later := ih accounted
    simp only [List.flatMap_cons, List.length_append, List.length_cons]
    cases first with
    | kept node line name none =>
      rw [node, none, List.length_singleton, List.length_nil]
      omega
    | lost none low high =>
      rw [none, List.length_nil]
      omega

theorem problem_parse {tokens : List Token} (valid : ∀ t ∈ tokens, t.kind.Lexeme t.lexeme) :
    ∀ d ∈ (parse tokens).diagnostics, (∃ slot, d.problem = .unfilled slot) ∨
      ∃ kind ∈ [Token.Kind.register, .constant, .comma, .arrow], d.problem = .expectedOpcode kind := by
  intro d member
  have kept : ∀ t ∈ Token.withoutComments tokens, t.kind.Lexeme t.lexeme :=
    fun t held => valid t (List.mem_filter.mp held).1
  rcases problem_of_lexemes kept d member with slot | ⟨t, held, other, problem⟩
  · exact .inl slot
  · have code : t.kind ≠ .comment := of_decide_eq_true (List.mem_filter.mp held).2
    refine .inr ⟨t.kind, ?_, problem⟩
    -- Opcodes start instructions and comments are filtered out; four kinds are left.
    cases kind : t.kind <;> first | exact absurd kind ‹_› | decide

end Program

theorem Slot.missing_ne_opcode (slot : Slot) : slot.missing.startsWith "Unknown opcode" = false ∧
    slot.missing ≠ "Expected Opcode, got OPCODE" ∧ slot.missing ≠ "Expected Opcode, got COMMENT" := by
  cases slot <;> decide +kernel

theorem Token.filter_opcode_withoutComments (tokens : List Token) :
    (withoutComments tokens).filter (·.kind = .opcode) = tokens.filter (·.kind = .opcode) := by
  rw [withoutComments, List.filter_filter]
  apply List.filter_congr
  intro t _
  cases t.kind <;> decide

open Program (readings)

/-- Every opcode that is scanned is known to the reading, so what is reported of the reading are slots
    that stay empty and operands or marks out of place. An opcode that has no node lacks one to three
    operands of its own, and one that has a node lacks none. -/
theorem opcodes_have_nodes_or_lack_operands (source : String) :
    (∀ d ∈ (analyze source).program.diagnostics,
      ((∃ slot, d.problem = .unfilled slot) ∨
        ∃ kind ∈ [Token.Kind.register, .constant, .comma, .arrow], d.problem = .expectedOpcode kind) ∧
      d.message.startsWith "Unknown opcode" = false ∧ d.message ≠ "Expected Opcode, got OPCODE" ∧
        d.message ≠ "Expected Opcode, got COMMENT") ∧
    (let read := readings (Token.withoutComments (scan source).tokens)
     read.map Prod.fst = (scan source).tokens.filter (·.kind = .opcode) ∧
       read.flatMap (fun r => r.2.nodes) = (analyze source).nodes ∧
       read.flatMap (fun r => r.2.operandReports) = (analyze source).program.operandReports ∧
       ∀ r ∈ read, Program.Accounted r.1 r.2) ∧
    let nodes := (analyze source).nodes.length
    let opcodes := (scan source).tokens.countP (·.kind = .opcode)
    let lacking := (analyze source).program.operandReports.length
    nodes ≤ opcodes ∧ opcodes - nodes ≤ lacking ∧ lacking ≤ 3 * (opcodes - nodes) := by
  have valid := (scannedTokens_withoutComments source).lexeme
  have accounted := Program.accounted_of_mem_readings valid
  have opcodes := (Program.map_fst_readings _).trans
    (Token.filter_opcode_withoutComments (scan source).tokens)
  have nodes := Program.flatMap_nodes_readings (Token.withoutComments (scan source).tokens)
  have lacking := Program.flatMap_operandReports_readings (Token.withoutComments (scan source).tokens)
  refine ⟨?_, ⟨opcodes, nodes, lacking, accounted⟩, ?_⟩
  · intro d member
    have problem := Program.problem_parse (scannedTokens_scan source).lexeme d member
    refine ⟨problem, ?_⟩
    rw [Diagnostic.message]
    rcases problem with ⟨slot, same⟩ | ⟨kind, among, same⟩
    · rw [same]
      exact slot.missing_ne_opcode
    · rw [same]
      clear same
      revert kind
      decide +kernel
  · have count : (readings (Token.withoutComments (scan source).tokens)).length =
        (scan source).tokens.countP (·.kind = .opcode) := by
      rw [List.countP_eq_length_filter, ← opcodes, List.length_map]
    have tally := Program.tally_of_accounted accounted
    rw [nodes, lacking, count] at tally
    exact tally

/-- Three are reached: an addition that has nothing but its name lacks every operand. -/
example : (analyze "add\nnop").nodes = [⟨2, .nop⟩] ∧ (analyze "add\nnop").program.operandReports =
    [⟨.number 2, .unfilled .firstOperand⟩, ⟨.number 2, .unfilled .secondOperand⟩,
      ⟨.number 2, .unfilled .destination⟩] := by
  decide +kernel

end Iloc
