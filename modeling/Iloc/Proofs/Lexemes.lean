import Iloc.Scan

namespace Iloc

def Digits (cs : List Char) : Prop := cs ≠ [] ∧ ∀ c ∈ cs, c.isDigit = true

def RegisterName (letters : List Char) : Prop := ∃ digits, letters = 'r' :: digits ∧ Digits digits

namespace Token

def Kind.Lexeme (lexeme : String) : Kind → Prop
  | .opcode => ∃ op : Opcode, lexeme = op.name
  | .register => RegisterName lexeme.toList
  | .constant => Digits lexeme.toList
  | .comma => lexeme = ","
  | .arrow => lexeme = "=>"
  | .comment => ∃ body, lexeme = String.ofList ('/' :: '/' :: body) ∧ '\n' ∉ body

end Token

namespace Segment

theorem isRegister_iff {letters : List Char} : isRegister letters = true ↔ RegisterName letters := by
  cases letters with
  | nil => simp [isRegister, RegisterName]
  | cons c digits =>
    simp only [isRegister, Bool.and_eq_true, beq_iff_eq, Bool.not_eq_true', List.isEmpty_eq_false_iff,
      List.all_eq_true]
    refine ⟨?_, ?_⟩
    · intro register
      obtain ⟨⟨rfl, nonempty⟩, all⟩ := register
      exact ⟨digits, rfl, nonempty, all⟩
    · intro register
      obtain ⟨_, same, nonempty, all⟩ := register
      obtain ⟨rfl, rfl⟩ := List.cons.inj same
      exact ⟨⟨rfl, nonempty⟩, all⟩

theorem not_registerName_name (op : Opcode) : ¬ RegisterName op.name.toList := by
  have none : ∀ op ∈ Opcode.all, isRegister op.name.toList = false := by decide
  rw [← isRegister_iff, none op (Opcode.mem_all op)]
  exact Bool.false_ne_true

theorem wordKind?_name (op : Opcode) : wordKind? op.name.toList = some .opcode := by
  simp [wordKind?, Opcode.ofName?_name]

theorem wordKind?_of_registerName {letters : List Char} (register : RegisterName letters) :
    wordKind? letters = some .register := by
  have unnamed : Opcode.ofName? (String.ofList letters) = none := by
    rw [Option.eq_none_iff_forall_not_mem]
    intro op named
    apply not_registerName_name op
    rw [Opcode.name_of_ofName? named, String.toList_ofList]
    exact register
  simp [wordKind?, unnamed, isRegister_iff.mpr register]

theorem wordKind?_eq_none {letters : List Char} (unnamed : ∀ op : Opcode, String.ofList letters ≠ op.name)
    (register : ¬ RegisterName letters) : wordKind? letters = none := by
  have unnamed : Opcode.ofName? (String.ofList letters) = none := by
    rw [Option.eq_none_iff_forall_not_mem]
    intro op named
    exact unnamed op (Opcode.name_of_ofName? named).symm
  simp [wordKind?, unnamed, isRegister_iff, register]

theorem word_cases (letters : List Char) :
    (∃ op : Opcode, letters = op.name.toList) ∨ RegisterName letters ∨
      (∀ op : Opcode, String.ofList letters ≠ op.name) ∧ ¬ RegisterName letters := by
  by_cases named : ∃ op : Opcode, letters = op.name.toList
  · exact .inl named
  by_cases register : RegisterName letters
  · exact .inr (.inl register)
  refine .inr (.inr ⟨?_, register⟩)
  intro op same
  exact named ⟨op, by rw [← same, String.toList_ofList]⟩

end Segment

end Iloc
