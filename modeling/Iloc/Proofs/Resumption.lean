import Iloc.Proofs.Filling

namespace Iloc

def Line.ofHead : List Token → Line
  | [] => .eof
  | t :: _ => .number t.line

/-- The line that is meant if the tokens end at `ending` instead of the end of the text. -/
def Line.endingAt : Line → Line → Line
  | .number n, _ => .number n
  | .eof, ending => ending

theorem Line.ofHead_append (tokens following : List Token) :
    ofHead (tokens ++ following) = (ofHead tokens).endingAt (ofHead following) := by
  cases tokens <;> rfl

def Diagnostic.endingAt (ending : Line) (d : Diagnostic) : Diagnostic :=
  ⟨d.line.endingAt ending, d.problem⟩

def Filling.followedBy (following : List Token) (f : Filling) : Filling where
  operands := f.operands
  diagnostics := f.diagnostics.map (Diagnostic.endingAt (.ofHead following))
  rest := f.rest ++ following

def Program.endingAt (ending : Line) (p : Program) : Program :=
  ⟨p.nodes, p.diagnostics.map (Diagnostic.endingAt ending)⟩

namespace Filling

variable (slot : Slot) (following : List Token) (f : Filling)

theorem followedBy_taken (lexeme : String) :
    (f.taken slot lexeme).followedBy following = (f.followedBy following).taken slot lexeme := by
  unfold taken
  split <;> rfl

theorem followedBy_missed (tokens : List Token) :
    (f.missed slot (.ofHead tokens)).followedBy following =
      (f.followedBy following).missed slot (.ofHead (tokens ++ following)) := by
  rw [Line.ofHead_append]
  rfl

end Filling

namespace Program

theorem append_assoc (p q r : Program) : p ++ q ++ r = p ++ (q ++ r) :=
  (mk.injEq ..).mpr ⟨List.append_assoc .., List.append_assoc ..⟩

theorem append_empty (p : Program) : p ++ empty = p :=
  (mk.injEq ..).mpr ⟨List.append_nil _, List.append_nil _⟩

theorem ofTokens_nil : ofTokens [] = empty := by
  rw [ofTokens]

theorem endingAt_append (ending : Line) (p q : Program) :
    (p ++ q).endingAt ending = p.endingAt ending ++ q.endingAt ending :=
  congrArg (mk _) List.map_append

end Program

namespace Token

theorem withoutComments_append (tokens following : List Token) :
    withoutComments (tokens ++ following) = withoutComments tokens ++ withoutComments following :=
  List.filter_append ..

theorem withoutComments_cons_of_comment {t : Token} (comment : t.kind = .comment) (rest : List Token) :
    withoutComments (t :: rest) = withoutComments rest := by
  apply List.filter_cons_of_neg
  simp [comment]

theorem withoutComments_cons_of_code {t : Token} (code : t.kind ≠ .comment) (rest : List Token) :
    withoutComments (t :: rest) = t :: withoutComments rest :=
  List.filter_cons_of_pos (decide_eq_true code)

theorem withoutComments_cons_of_opcode {t : Token} (opcode : t.kind = .opcode) (rest : List Token) :
    withoutComments (t :: rest) = t :: withoutComments rest := by
  apply withoutComments_cons_of_code
  simp [opcode]

theorem withoutComments_of_code {tokens : List Token} (code : ∀ t ∈ tokens, t.kind ≠ .comment) :
    withoutComments tokens = tokens :=
  List.filter_eq_self.mpr fun t held => decide_eq_true (code t held)

end Token

theorem Slot.kind_ne_opcode (slot : Slot) : slot.kind ≠ .opcode := by
  cases slot <;> decide

theorem fill_cons_of_head_kind_ne {slot : Slot} {slots : List Slot} {tokens : List Token}
    (other : ∀ t ∈ tokens.head?, t.kind ≠ slot.kind) :
    fill (slot :: slots) tokens = (fill slots tokens).missed slot (.ofHead tokens) := by
  cases tokens with
  | nil => rfl
  | cons t rest => rw [fill, if_neg (other t rfl), Line.ofHead]

theorem fill_cons_cases (slot : Slot) (slots : List Slot) (tokens : List Token) :
    (∃ t rest, tokens = t :: rest ∧ t.kind = slot.kind ∧
      fill (slot :: slots) tokens = (fill slots rest).taken slot t.lexeme) ∨
    (∀ t ∈ tokens.head?, t.kind ≠ slot.kind) ∧
      fill (slot :: slots) tokens = (fill slots tokens).missed slot (.ofHead tokens) := by
  by_cases same : ∃ t ∈ tokens.head?, t.kind = slot.kind
  · obtain ⟨t, head, same⟩ := same
    obtain ⟨rest, rfl⟩ := List.head?_eq_some_iff.mp head
    exact .inl ⟨t, rest, rfl, same, fill_cons_of_kind same⟩
  · have other : ∀ t ∈ tokens.head?, t.kind ≠ slot.kind := fun t head kind => same ⟨t, head, kind⟩
    exact .inr ⟨other, fill_cons_of_head_kind_ne other⟩

def Token.misplaced (t : Token) : Diagnostic := ⟨.number t.line, .expectedOpcode t.kind⟩

theorem Program.ofTokens_cons_of_kind_ne {t : Token} (other : t.kind ≠ .opcode) (rest : List Token) :
    ofTokens (t :: rest) = ⟨[], [t.misplaced]⟩ ++ ofTokens rest := by
  rw [ofTokens, start_of_kind_ne other]
  rfl

/-- Tokens that are no opcodes are skipped one by one. -/
theorem Program.ofTokens_append_of_plain {tokens : List Token} (plain : ∀ t ∈ tokens, t.kind ≠ .opcode)
    (rest : List Token) :
    ofTokens (tokens ++ rest) = ⟨[], tokens.map Token.misplaced⟩ ++ ofTokens rest := by
  induction tokens with
  | nil => rfl
  | cons t tokens ih =>
    obtain ⟨other, plain⟩ := List.forall_mem_cons.mp plain
    rw [List.cons_append, ofTokens_cons_of_kind_ne other, ih plain, ← append_assoc]
    rfl

theorem Program.ofTokens_of_plain {tokens : List Token} (plain : ∀ t ∈ tokens, t.kind ≠ .opcode) :
    ofTokens tokens = ⟨[], tokens.map Token.misplaced⟩ := by
  have skipped := ofTokens_append_of_plain plain []
  rwa [List.append_nil, ofTokens_nil, append_empty] at skipped

theorem forall_mem_head?_append {α : Type} {p : α → Prop} {front back : List α}
    (first : ∀ a ∈ front.head?, p a) (next : ∀ a ∈ back.head?, p a) :
    ∀ a ∈ (front ++ back).head?, p a := by
  cases front with
  | nil => exact next
  | cons a front => exact first

section Following

variable {following : List Token} (opens : ∀ t ∈ following.head?, t.kind = .opcode)

include opens

/-- No slot takes an opcode, so the slots that are still empty there stay empty. -/
theorem fill_append (slots : List Slot) (tokens : List Token) :
    fill slots (tokens ++ following) = (fill slots tokens).followedBy following := by
  induction slots generalizing tokens with
  | nil => simp [fill, Filling.done, Filling.followedBy]
  | cons slot slots ih =>
    rcases fill_cons_cases slot slots tokens with ⟨t, rest, rfl, same, step⟩ | ⟨other, step⟩
    · rw [step, List.cons_append, fill_cons_of_kind same, ih, Filling.followedBy_taken]
    · have never : ∀ t ∈ following.head?, t.kind ≠ slot.kind := by
        intro t head
        rw [opens t head]
        exact slot.kind_ne_opcode.symm
      have still := forall_mem_head?_append other never
      rw [step, fill_cons_of_head_kind_ne still, ih, Filling.followedBy_missed]

namespace Program

theorem start_append (t : Token) (rest : List Token) :
    start t (rest ++ following) =
      ((start t rest).1.endingAt (.ofHead following), (start t rest).2 ++ following) := by
  unfold start
  split
  · split
    · rw [fill_append opens]
      rfl
    · rfl
  · rfl

theorem ofTokens_append (tokens : List Token) :
    ofTokens (tokens ++ following) =
      (ofTokens tokens).endingAt (.ofHead following) ++ ofTokens following := by
  fun_induction ofTokens tokens with
  | case1 => rfl
  | case2 t rest ih =>
    rw [List.cons_append, ofTokens, start_append opens, ih]
    rw [endingAt_append, append_assoc]

end Program

end Following

open Program (ofTokens parse)

/-- Whatever stands before an opcode, reading starts anew there: what is before is read as if the
    opcode's line were its end, and the opcode and what follows as if they stood alone. -/
theorem reading_resumes_at_opcode (before after : List Token) (t : Token) (opcode : t.kind = .opcode) :
    ((parse (before ++ t :: after)).nodes = (parse before).nodes ++ (parse (t :: after)).nodes ∧
      (parse (before ++ t :: after)).diagnostics =
        (parse before).diagnostics.map (Diagnostic.endingAt (.number t.line)) ++
          (parse (t :: after)).diagnostics) ∧
    (ofTokens (before ++ t :: after)).nodes = (ofTokens before).nodes ++ (ofTokens (t :: after)).nodes ∧
      (ofTokens (before ++ t :: after)).diagnostics =
        (ofTokens before).diagnostics.map (Diagnostic.endingAt (.number t.line)) ++
          (ofTokens (t :: after)).diagnostics := by
  have resumes : ∀ earlier later, ofTokens (earlier ++ t :: later) =
      (ofTokens earlier).endingAt (.number t.line) ++ ofTokens (t :: later) := by
    intro earlier later
    have opens : ∀ u ∈ (t :: later).head?, u.kind = .opcode := by simpa using opcode
    exact Program.ofTokens_append opens earlier
  have parsed : parse (before ++ t :: after) =
      (parse before).endingAt (.number t.line) ++ parse (t :: after) := by
    rw [parse, Token.withoutComments_append, Token.withoutComments_cons_of_opcode opcode, resumes]
    rw [parse, parse, Token.withoutComments_cons_of_opcode opcode]
  rw [parsed, resumes]
  exact ⟨⟨rfl, rfl⟩, rfl, rfl⟩

/-- An instruction that breaks off is reported on the line of the next opcode, which reads as ever. -/
theorem reading_resumes_at_nop :
    (⟨3, .opcode, "nop"⟩ : Token).kind = .opcode ∧
      parse [⟨1, .opcode, "sub"⟩, ⟨1, .register, "r1"⟩, ⟨2, .comma, ","⟩, ⟨3, .opcode, "nop"⟩] =
        ⟨[⟨3, .nop⟩], [⟨.number 3, .unfilled .secondOperand⟩, ⟨.number 3, .unfilled .arrow⟩,
          ⟨.number 3, .unfilled .destination⟩]⟩ := by
  have resumes := reading_resumes_at_opcode
    [⟨1, .opcode, "sub"⟩, ⟨1, .register, "r1"⟩, ⟨2, .comma, ","⟩] [] ⟨3, .opcode, "nop"⟩ rfl
  have alone : parse [⟨1, .opcode, "sub"⟩, ⟨1, .register, "r1"⟩, ⟨2, .comma, ","⟩] =
      ⟨[], [⟨.eof, .unfilled .secondOperand⟩, ⟨.eof, .unfilled .arrow⟩,
        ⟨.eof, .unfilled .destination⟩]⟩ := by
    decide +kernel
  have nop : parse [⟨3, .opcode, "nop"⟩] = ⟨[⟨3, .nop⟩], []⟩ := by decide +kernel
  rw [alone, nop] at resumes
  exact ⟨rfl, (Program.mk.injEq ..).mpr ⟨resumes.1.1, resumes.1.2⟩⟩

end Iloc
