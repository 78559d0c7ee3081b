import Iloc.Program

namespace Iloc

def operandLexemes (slots : List Slot) (taken : List Token) : List String :=
  ((slots.zip taken).filter fun (slot, _) => slot.isOperand).map fun (_, t) => t.lexeme

theorem fill_cons_of_kind {slot : Slot} {slots : List Slot} {t : Token} {rest : List Token}
    (same : t.kind = slot.kind) :
    fill (slot :: slots) (t :: rest) = (fill slots rest).taken slot t.lexeme := by
  rw [fill, if_pos same]

/-- Tokens of exactly the kinds asked for fill every slot, and nothing after them is touched. -/
theorem fill_append_of_kinds {slots : List Slot} {taken : List Token}
    (kinds : taken.map Token.kind = slots.map Slot.kind) (rest : List Token) :
    fill slots (taken ++ rest) = ⟨some (operandLexemes slots taken), [], rest⟩ := by
  induction slots generalizing taken with
  | nil =>
    have none : taken = [] := by simpa using kinds
    subst none
    rfl
  | cons slot slots ih =>
    cases taken with
    | nil => simp at kinds
    | cons t taken =>
      obtain ⟨same, kinds⟩ := List.cons.inj kinds
      rw [List.cons_append, fill_cons_of_kind same, ih kinds]
      by_cases operand : slot.isOperand <;> simp [Filling.taken, operandLexemes, operand]

theorem fill_takes_every_kind {slots : List Slot} {tokens : List Token}
    (clean : (fill slots tokens).diagnostics = []) :
    ∃ taken, tokens = taken ++ (fill slots tokens).rest ∧
      taken.map Token.kind = slots.map Slot.kind := by
  fun_induction fill slots tokens with
  | case1 tokens => exact ⟨[], rfl, rfl⟩
  | case2 slot slots ih => simp at clean
  | case3 slot slots t rest same ih =>
    rw [Filling.diagnostics_taken] at clean
    obtain ⟨taken, whole, kinds⟩ := ih clean
    refine ⟨t :: taken, ?_, by simp [same, kinds]⟩
    rw [Filling.rest_taken, List.cons_append, ← whole]
  | case4 slot slots t rest other ih => simp at clean

namespace Program

theorem start_of_kind_ne {t : Token} (other : t.kind ≠ .opcode) (rest : List Token) :
    start t rest = (report t (.expectedOpcode t.kind), rest) :=
  if_neg other

theorem start_cases (t : Token) (rest : List Token) :
    (t.kind ≠ .opcode ∧ start t rest = (report t (.expectedOpcode t.kind), rest)) ∨
    (t.kind = .opcode ∧ Opcode.ofName? t.lexeme = none ∧
      start t rest = (report t (.unknownOpcode t.lexeme), rest)) ∨
    ∃ op : Opcode, t.kind = .opcode ∧ t.lexeme = op.name ∧
      start t rest = (ofFilling t.line op (fill op.slots rest), (fill op.slots rest).rest) := by
  by_cases kind : t.kind = .opcode
  · unfold start
    cases named : Opcode.ofName? t.lexeme with
    | none => exact .inr (.inl ⟨kind, rfl, if_pos kind⟩)
    | some op =>
      exact .inr (.inr ⟨op, kind, (Opcode.name_of_ofName? named).symm, if_pos kind⟩)
  · exact .inl ⟨kind, start_of_kind_ne kind rest⟩

end Program

end Iloc
