import Iloc.Proofs.Filling
import Iloc.Proofs.Lexemes
import Mathlib.Data.List.Forall2

namespace Iloc

def Instruction.WellFormed : Instruction → Prop
  | .binary _ left right target =>
    RegisterName left.toList ∧ RegisterName right.toList ∧ RegisterName target.toList
  | .access _ source target => RegisterName source.toList ∧ RegisterName target.toList
  | .loadI value target => Digits value.toList ∧ RegisterName target.toList
  | .output source => RegisterName source.toList
  | .nop => True

theorem Instruction.wellFormed_of_lexemes {i : Instruction}
    (lexemes : List.Forall₂ (fun slot lexeme => slot.kind.Lexeme lexeme)
      (i.opcode.slots.filter Slot.isOperand) i.operands) : i.WellFormed := by
  cases i with
  | binary op left right target =>
    match lexemes with
    | .cons left (.cons right (.cons target .nil)) => exact ⟨left, right, target⟩
  | access op source target =>
    match lexemes with
    | .cons source (.cons target .nil) => exact ⟨source, target⟩
  | loadI value target =>
    match lexemes with
    | .cons value (.cons target .nil) => exact ⟨value, target⟩
  | output source =>
    match lexemes with
    | .cons source .nil => exact source
  | nop => exact True.intro

theorem fill_operands {slots : List Slot} {tokens : List Token} {operands : List String}
    (found : (fill slots tokens).operands = some operands) :
    List.Forall₂ (fun slot lexeme => ∃ t ∈ tokens, t.kind = slot.kind ∧ t.lexeme = lexeme)
      (slots.filter Slot.isOperand) operands := by
  fun_induction fill slots tokens generalizing operands with
  | case1 tokens =>
    cases found
    exact .nil
  | case2 slot slots ih =>
    obtain ⟨other, found⟩ := Filling.operands_missed_eq_some found
    rw [List.filter_cons_of_neg other]
    exact ih found
  | case3 slot slots t rest same ih =>
    have further : ∀ slot lexeme, (∃ u ∈ rest, u.kind = slot.kind ∧ u.lexeme = lexeme) →
        ∃ u ∈ t :: rest, u.kind = Slot.kind slot ∧ u.lexeme = lexeme := by
      intro slot lexeme held
      obtain ⟨u, member, held⟩ := held
      exact ⟨u, List.mem_cons_of_mem _ member, held⟩
    rw [Filling.operands_taken] at found
    by_cases operand : slot.isOperand
    · rw [if_pos operand] at found
      obtain ⟨later, collected, rfl⟩ := Option.map_eq_some_iff.mp found
      rw [List.filter_cons_of_pos operand]
      exact .cons ⟨t, List.mem_cons_self, same, rfl⟩ ((ih collected).imp further)
    · rw [if_neg operand] at found
      rw [List.filter_cons_of_neg operand]
      exact (ih found).imp further
  | case4 slot slots t rest other ih =>
    obtain ⟨other, found⟩ := Filling.operands_missed_eq_some found
    rw [List.filter_cons_of_neg other]
    exact ih found

theorem problem_of_mem_fill {slots : List Slot} {tokens : List Token} :
    ∀ d ∈ (fill slots tokens).diagnostics, ∃ slot, d.problem = .unfilled slot := by
  fun_induction fill slots tokens with
  | case1 tokens => simp [Filling.done]
  | case2 slot slots ih => simpa using ih
  | case3 slot slots t rest same ih => simpa using ih
  | case4 slot slots t rest other ih => simpa using ih

namespace Program

/-- A node is on the line of its opcode, and its operands come from the tokens after it. -/
theorem mem_nodes_start {t : Token} {rest : List Token} {n : Node} (member : n ∈ (start t rest).1.nodes) :
    (start t rest).1.nodes = [n] ∧ n.line = t.line ∧
      List.Forall₂ (fun slot lexeme => ∃ u ∈ rest, u.kind = slot.kind ∧ u.lexeme = lexeme)
        (n.opcode.slots.filter Slot.isOperand) n.instruction.operands := by
  rcases start_cases t rest with ⟨-, same⟩ | ⟨-, -, same⟩ | ⟨op, -, -, same⟩
  · rw [same] at member
    cases member
  · rw [same] at member
    cases member
  · rw [same] at member ⊢
    simp only [ofFilling, Option.mem_toList, Option.map_eq_some_iff,
      Option.bind_eq_some_iff] at member
    obtain ⟨i, ⟨operands, found, built⟩, rfl⟩ := member
    obtain ⟨rfl, rfl⟩ := Instruction.ofOperands?_eq_some_iff.mp built
    exact ⟨by simp [ofFilling, found, built], rfl, fill_operands found⟩

theorem wellFormed_of_lexemes {tokens : List Token} (valid : ∀ t ∈ tokens, t.kind.Lexeme t.lexeme) :
    ∀ n ∈ (ofTokens tokens).nodes, n.instruction.WellFormed := by
  fun_induction ofTokens tokens with
  | case1 =>
    intro n member
    cases member
  | case2 t rest ih =>
    have later : ∀ u ∈ rest, u.kind.Lexeme u.lexeme := (List.forall_mem_cons.mp valid).2
    intro n member
    rcases List.mem_append.mp member with member | member
    · obtain ⟨-, -, operands⟩ := mem_nodes_start member
      apply Instruction.wellFormed_of_lexemes
      apply operands.imp
      intro slot lexeme held
      obtain ⟨u, held, kind, rfl⟩ := held
      rw [← kind]
      exact later u held
    · apply ih _ n member
      intro u held
      exact later u ((start_rest_suffix t rest).subset held)

/-- No opcode that was scanned is unknown. -/
theorem problem_of_lexemes {tokens : List Token} (valid : ∀ t ∈ tokens, t.kind.Lexeme t.lexeme) :
    ∀ d ∈ (ofTokens tokens).diagnostics, (∃ slot, d.problem = .unfilled slot) ∨
      ∃ t ∈ tokens, t.kind ≠ .opcode ∧ d.problem = .expectedOpcode t.kind := by
  fun_induction ofTokens tokens with
  | case1 => simp [empty]
  | case2 t rest ih =>
    obtain ⟨first, valid⟩ := List.forall_mem_cons.mp valid
    have left := (start_rest_suffix t rest).subset
    intro d member
    rcases List.mem_append.mp member with own | held
    · rcases start_cases t rest with ⟨other, same⟩ | ⟨kind, unknown, -⟩ | ⟨op, -, -, same⟩
      · rw [same] at own
        obtain rfl := List.mem_singleton.mp own
        exact .inr ⟨t, List.mem_cons_self, other, rfl⟩
      · rw [kind] at first
        obtain ⟨op, name⟩ := first
        rw [name, Opcode.ofName?_name] at unknown
        cases unknown
      · rw [same] at own
        exact .inl (problem_of_mem_fill d own)
    · rcases ih (fun u later => valid u (left later)) d held with slot | ⟨u, later, other, problem⟩
      · exact .inl slot
      · exact .inr ⟨u, List.mem_cons_of_mem t (left later), other, problem⟩

theorem lines_sublist (tokens : List Token) :
    ((ofTokens tokens).nodes.map Node.line).Sublist (tokens.map Token.line) := by
  fun_induction ofTokens tokens with
  | case1 => exact .slnil
  | case2 t rest ih =>
    have later : ((ofTokens (start t rest).2).nodes.map Node.line).Sublist (rest.map Token.line) :=
      ih.trans ((start_rest_suffix t rest).sublist.map _)
    rw [nodes_append, List.map_append, List.map_cons]
    cases nodes : (start t rest).1.nodes with
    -- A token that starts no instruction is skipped, and its line with it.
    | nil => exact later.cons _
    | cons n others =>
      obtain ⟨single, line, -⟩ := mem_nodes_start (nodes ▸ List.mem_cons_self : n ∈ _)
      rw [← nodes, single, List.map_singleton, line]
      exact later.cons_cons _

end Program

end Iloc
