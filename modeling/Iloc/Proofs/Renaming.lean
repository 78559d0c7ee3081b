import Iloc.Proofs.Matching

namespace Iloc

def Line.renumber (g : Nat → Nat) : Line → Line
  | .number n => .number (g n)
  | .eof => .eof

def Diagnostic.renumber (g : Nat → Nat) (d : Diagnostic) : Diagnostic := ⟨d.line.renumber g, d.problem⟩

def Instruction.rename (h : String → String) : Instruction → Instruction
  | .binary op left right target => .binary op (h left) (h right) (h target)
  | .access op source target => .access op (h source) (h target)
  | .loadI value target => .loadI (h value) (h target)
  | .output source => .output (h source)
  | .nop => .nop

def Node.rename (g : Nat → Nat) (h : String → String) (n : Node) : Node :=
  ⟨g n.line, n.instruction.rename h⟩

def Program.rename (g : Nat → Nat) (h : String → String) (p : Program) : Program :=
  ⟨p.nodes.map (Node.rename g h), p.diagnostics.map (Diagnostic.renumber g)⟩

def Token.renumber (g : Nat → Nat) (t : Token) : Token := ⟨g t.line, t.kind, t.lexeme⟩

def Node.renumber (g : Nat → Nat) (n : Node) : Node := ⟨g n.line, n.instruction⟩

def Program.renumber (g : Nat → Nat) (p : Program) : Program :=
  ⟨p.nodes.map (Node.renumber g), p.diagnostics.map (Diagnostic.renumber g)⟩

structure Token.Renames (g : Nat → Nat) (h : String → String) (t u : Token) : Prop where
  line : u.line = g t.line
  kind : u.kind = t.kind
  opcode : t.kind = .opcode → u.lexeme = t.lexeme
  operand : t.kind.isOperand → u.lexeme = h t.lexeme

variable {g : Nat → Nat} {h : String → String}

theorem Instruction.rename_id (i : Instruction) : i.rename id = i := by
  cases i <;> rfl

theorem Instruction.ofOperands?_map (op : Opcode) (operands : List String) :
    ofOperands? op (operands.map h) = (ofOperands? op operands).map (rename h) := by
  cases op <;> rcases operands with _ | ⟨_, _ | ⟨_, _ | ⟨_, _ | _⟩⟩⟩ <;> rfl

theorem Line.ofHead_renamed {tokens others : List Token}
    (renamed : List.Forall₂ (Token.Renames g h) tokens others) :
    ofHead others = (ofHead tokens).renumber g := by
  cases renamed with
  | nil => rfl
  | cons first _ => exact congrArg number first.line

structure Filling.Renames (g : Nat → Nat) (h : String → String) (f e : Filling) : Prop where
  operands : e.operands = f.operands.map (List.map h)
  diagnostics : e.diagnostics = f.diagnostics.map (Diagnostic.renumber g)
  rest : List.Forall₂ (Token.Renames g h) f.rest e.rest

namespace Filling.Renames

variable {f e : Filling}

theorem taken (renamed : f.Renames g h e) {slot : Slot} {t u : Token} (same : t.kind = slot.kind)
    (first : t.Renames g h u) : (f.taken slot t.lexeme).Renames g h (e.taken slot u.lexeme) := by
  refine ⟨?_, ?_, ?_⟩
  · rw [operands_taken, operands_taken, renamed.operands]
    by_cases operand : slot.isOperand
    · have lexeme : u.lexeme = h t.lexeme := by
        apply first.operand
        rw [same, ← slot.isOperand_eq]
        exact operand
      rw [if_pos operand, if_pos operand, lexeme]
      cases f.operands <;> rfl
    · rw [if_neg operand, if_neg operand]
  · rw [diagnostics_taken, diagnostics_taken, renamed.diagnostics]
  · rw [rest_taken, rest_taken]
    exact renamed.rest

theorem missed (renamed : f.Renames g h e) (slot : Slot) {tokens others : List Token}
    (left : List.Forall₂ (Token.Renames g h) tokens others) :
    (f.missed slot (.ofHead tokens)).Renames g h (e.missed slot (.ofHead others)) := by
  refine ⟨?_, ?_, renamed.rest⟩
  · unfold Filling.missed
    by_cases operand : slot.isOperand
    · rw [if_pos operand, if_pos operand]
      rfl
    · rw [if_neg operand, if_neg operand]
      exact renamed.operands
  · rw [diagnostics_missed, diagnostics_missed, renamed.diagnostics, Line.ofHead_renamed left]
    rfl

end Filling.Renames

theorem renames_fill (slots : List Slot) {tokens others : List Token}
    (renamed : List.Forall₂ (Token.Renames g h) tokens others) :
    (fill slots tokens).Renames g h (fill slots others) := by
  induction slots generalizing tokens others with
  | nil => exact ⟨rfl, rfl, renamed⟩
  | cons slot slots ih =>
    cases renamed with
    | nil => exact (ih .nil).missed slot .nil
    | @cons t u rest later first renamed =>
      by_cases same : t.kind = slot.kind
      · rw [fill_cons_of_kind same, fill_cons_of_kind (first.kind.trans same)]
        exact (ih renamed).taken same first
      · have other : u.kind ≠ slot.kind := by rwa [first.kind]
        rw [fill, if_neg same, fill, if_neg other]
        exact (ih (.cons first renamed)).missed slot (.cons first renamed)

namespace Program

theorem rename_append (p q : Program) : (p ++ q).rename g h = p.rename g h ++ q.rename g h :=
  (mk.injEq ..).mpr ⟨List.map_append, List.map_append⟩

theorem rename_ofFilling {f e : Filling} (renamed : f.Renames g h e) (line : Nat) (op : Opcode) :
    ofFilling (g line) op e = (ofFilling line op f).rename g h := by
  rw [ofFilling, renamed.operands, renamed.diagnostics]
  cases found : f.operands with
  | none => simp [ofFilling, rename, found]
  | some operands =>
    cases built : Instruction.ofOperands? op operands <;>
      simp [ofFilling, rename, found, built, Instruction.ofOperands?_map, Node.rename]

theorem renames_start {t u : Token} (first : t.Renames g h u) {rest later : List Token}
    (renamed : List.Forall₂ (Token.Renames g h) rest later) :
    (start u later).1 = (start t rest).1.rename g h ∧
      List.Forall₂ (Token.Renames g h) (start t rest).2 (start u later).2 := by
  rcases start_cases t rest with ⟨other, step⟩ | ⟨kind, unnamed, step⟩ | ⟨op, kind, lexeme, step⟩
  · have never : u.kind ≠ .opcode := by rwa [first.kind]
    rw [step, start_of_kind_ne never, first.kind, report, first.line]
    exact ⟨rfl, renamed⟩
  · rw [step, start, if_pos (first.kind.trans kind), first.opcode kind, unnamed]
    refine ⟨?_, renamed⟩
    show report u _ = _
    rw [report, first.line]
    rfl
  · have named : Opcode.ofName? u.lexeme = some op := by
      rw [first.opcode kind, lexeme, Opcode.ofName?_name]
    have filled := renames_fill op.slots renamed
    rw [step, start, if_pos (first.kind.trans kind), named]
    refine ⟨?_, filled.rest⟩
    show ofFilling u.line op (fill op.slots later) = _
    rw [first.line, rename_ofFilling filled]

/-- Nothing is decided by a line number or by the text of an operand, so to rename the tokens is to
    rename what is read from them. -/
theorem rename_ofTokens {tokens others : List Token}
    (renamed : List.Forall₂ (Token.Renames g h) tokens others) :
    ofTokens others = (ofTokens tokens).rename g h := by
  fun_induction ofTokens tokens generalizing others with
  | case1 =>
    cases renamed
    rw [ofTokens_nil]
    rfl
  | case2 t rest ih =>
    cases renamed with
    | @cons _ u _ later first renamed =>
      obtain ⟨read, left⟩ := renames_start first renamed
      rw [ofTokens, rename_append, read, ih left]

theorem rename_id (g : Nat → Nat) (p : Program) : p.rename g id = p.renumber g := by
  have node : ∀ n : Node, n.rename g id = n.renumber g := by
    intro n
    rw [Node.rename, Instruction.rename_id]
    rfl
  rw [rename, renumber, List.map_congr_left fun n _ => node n]

theorem ofTokens_renumbered (g : Nat → Nat) (tokens : List Token) :
    ofTokens (tokens.map (Token.renumber g)) = (ofTokens tokens).renumber g := by
  have renamed : List.Forall₂ (Token.Renames g id) tokens (tokens.map (Token.renumber g)) := by
    rw [List.forall₂_map_right_iff, List.forall₂_same]
    intro t _
    exact ⟨rfl, rfl, fun _ => rfl, fun _ => rfl⟩
  rw [rename_ofTokens renamed, rename_id]

end Program

open Program (ofTokens parse)

theorem Token.renames_withoutComments {tokens others : List Token}
    (renamed : List.Forall₂ (Renames g h) tokens others) :
    List.Forall₂ (Renames g h) (withoutComments tokens) (withoutComments others) := by
  induction renamed with
  | nil => exact .nil
  | @cons t u rest later first _ ih =>
    by_cases comment : t.kind = .comment
    · simpa [withoutComments, first.kind, comment] using ih
    · simpa [withoutComments, first.kind, comment] using And.intro first ih

/-- Lines and the texts of operands go through the reading untouched and unseen: if the tokens get other
    lines and operands, and commas, arrows and comments any text, then the nodes get the same lines and
    operands, and the reports point at the same lines with the same messages. -/
theorem reading_looks_at_no_line_or_operand {tokens others : List Token}
    (renamed : List.Forall₂ (Token.Renames g h) tokens others) :
    ((parse others).nodes = (parse tokens).nodes.map (Node.rename g h) ∧
      (parse others).diagnostics = (parse tokens).diagnostics.map (Diagnostic.renumber g)) ∧
    (ofTokens others).nodes = (ofTokens tokens).nodes.map (Node.rename g h) ∧
      (ofTokens others).diagnostics = (ofTokens tokens).diagnostics.map (Diagnostic.renumber g) := by
  have parsed : parse others = (parse tokens).rename g h :=
    Program.rename_ofTokens (Token.renames_withoutComments renamed)
  have read : ofTokens others = (ofTokens tokens).rename g h := Program.rename_ofTokens renamed
  rw [parsed, read]
  exact ⟨⟨rfl, rfl⟩, rfl, rfl⟩

def sumThenStore : List Token :=
  [⟨1, .opcode, "add"⟩, ⟨1, .register, "r1"⟩, ⟨1, .comment, "// left"⟩, ⟨2, .comma, ","⟩,
    ⟨2, .register, "r2"⟩, ⟨2, .arrow, "=>"⟩, ⟨2, .register, "r3"⟩, ⟨3, .opcode, "jump"⟩,
    ⟨3, .opcode, "store"⟩, ⟨3, .register, "r4"⟩]

def markedSumThenStore : List Token :=
  [⟨10, .opcode, "add"⟩, ⟨10, .register, "%r1"⟩, ⟨10, .comment, "#"⟩, ⟨20, .comma, ";"⟩,
    ⟨20, .register, "%r2"⟩, ⟨20, .arrow, "->"⟩, ⟨20, .register, "%r3"⟩, ⟨30, .opcode, "jump"⟩,
    ⟨30, .opcode, "store"⟩, ⟨30, .register, "%r4"⟩]

theorem reading_of_marked_operands :
    List.Forall₂ (Token.Renames (10 * ·) ("%" ++ ·)) sumThenStore markedSumThenStore ∧
      (parse markedSumThenStore).nodes = [⟨10, .binary .add "%r1" "%r2" "%r3"⟩] ∧
      (parse markedSumThenStore).diagnostics =
        [⟨.number 30, .unknownOpcode "jump"⟩, ⟨.eof, .unfilled .arrow⟩, ⟨.eof, .unfilled .destination⟩] := by
  have renamed : List.Forall₂ (Token.Renames (10 * ·) ("%" ++ ·)) sumThenStore markedSumThenStore := by
    unfold sumThenStore markedSumThenStore
    repeat' constructor
    all_goals decide
  have read : parse sumThenStore = ⟨[⟨1, .binary .add "r1" "r2" "r3"⟩],
      [⟨.number 3, .unknownOpcode "jump"⟩, ⟨.eof, .unfilled .arrow⟩, ⟨.eof, .unfilled .destination⟩]⟩ := by
    decide +kernel
  have moved := (reading_looks_at_no_line_or_operand renamed).1
  rw [read] at moved
  exact ⟨renamed, moved⟩

end Iloc
