import Iloc.Diagnostic

namespace Iloc

/-- What comes of filling slots with tokens: the operand lexemes, unless an operand slot stayed empty;
    a diagnostic for each empty slot; and the tokens that were not needed. -/
structure Filling where
  operands : Option (List String)
  diagnostics : List Diagnostic
  rest : List Token
  deriving DecidableEq, Repr

namespace Filling

def done (rest : List Token) : Filling := ⟨some [], [], rest⟩

def taken (slot : Slot) (lexeme : String) (f : Filling) : Filling :=
  if slot.isOperand then { f with operands := f.operands.map (lexeme :: ·) } else f

def missed (slot : Slot) (line : Line) (f : Filling) : Filling where
  operands := if slot.isOperand then none else f.operands
  diagnostics := ⟨line, .unfilled slot⟩ :: f.diagnostics
  rest := f.rest

@[simp]
theorem diagnostics_taken (slot : Slot) (lexeme : String) (f : Filling) :
    (f.taken slot lexeme).diagnostics = f.diagnostics := by
  unfold taken
  split <;> rfl

@[simp]
theorem rest_taken (slot : Slot) (lexeme : String) (f : Filling) :
    (f.taken slot lexeme).rest = f.rest := by
  unfold taken
  split <;> rfl

theorem operands_taken (slot : Slot) (lexeme : String) (f : Filling) :
    (f.taken slot lexeme).operands =
      if slot.isOperand then f.operands.map (lexeme :: ·) else f.operands := by
  unfold taken
  split <;> rfl

theorem operands_missed_eq_some {slot : Slot} {line : Line} {f : Filling} {operands : List String}
    (found : (f.missed slot line).operands = some operands) :
    ¬ slot.isOperand ∧ f.operands = some operands := by
  unfold missed at found
  split at found
  · cases found
  · rename_i other
    exact ⟨other, found⟩

@[simp]
theorem diagnostics_missed (slot : Slot) (line : Line) (f : Filling) :
    (f.missed slot line).diagnostics = ⟨line, .unfilled slot⟩ :: f.diagnostics := rfl

@[simp]
theorem rest_missed (slot : Slot) (line : Line) (f : Filling) :
    (f.missed slot line).rest = f.rest := rfl

end Filling

/-- Fills the slots in order. A slot takes the next token if it is of the slot's kind; otherwise the
    slot is reported and the token waits for the next one. -/
def fill : List Slot → List Token → Filling
  | [], tokens => .done tokens
  | slot :: slots, [] => (fill slots []).missed slot .eof
  | slot :: slots, t :: rest =>
    if t.kind = slot.kind then (fill slots rest).taken slot t.lexeme
    else (fill slots (t :: rest)).missed slot (.number t.line)

theorem fill_rest_suffix (slots : List Slot) (tokens : List Token) :
    (fill slots tokens).rest <:+ tokens := by
  fun_induction fill slots tokens with
  | case1 tokens => exact List.suffix_refl tokens
  | case2 slot slots ih => exact ih
  | case3 slot slots t rest same ih =>
    rw [Filling.rest_taken]
    exact ih.trans (List.suffix_cons t rest)
  | case4 slot slots t rest other ih => exact ih

end Iloc
