import Iloc.Proofs.Grammar
import Iloc.Proofs.Matching
import Iloc.Proofs.ParsedNodes

namespace Iloc

/-- Tokens that are enough for a node: those of a complete instruction, of which a comma or an arrow may
    be missing. -/
inductive Conveys : Node → List Token → Prop where
  | binary {op : BinaryOp} {t left right target : Token} {comma arrow : Option Token} :
      t.Names (.binary op) → left.kind = .register → (∀ c ∈ comma, c.kind = .comma) →
        right.kind = .register → (∀ a ∈ arrow, a.kind = .arrow) → target.kind = .register →
        Conveys ⟨t.line, .binary op left.lexeme right.lexeme target.lexeme⟩
          (t :: left :: (comma.toList ++ right :: (arrow.toList ++ [target])))
  | access {op : Access} {t source target : Token} {arrow : Option Token} :
      t.Names (.access op) → source.kind = .register → (∀ a ∈ arrow, a.kind = .arrow) →
        target.kind = .register →
        Conveys ⟨t.line, .access op source.lexeme target.lexeme⟩
          (t :: source :: (arrow.toList ++ [target]))
  | loadI {t value target : Token} {arrow : Option Token} :
      t.Names .loadI → value.kind = .constant → (∀ a ∈ arrow, a.kind = .arrow) →
        target.kind = .register →
        Conveys ⟨t.line, .loadI value.lexeme target.lexeme⟩ (t :: value :: (arrow.toList ++ [target]))
  | output {t source : Token} : t.Names .output → source.kind = .register →
      Conveys ⟨t.line, .output source.lexeme⟩ [t, source]
  | nop {t : Token} : t.Names .nop → Conveys ⟨t.line, .nop⟩ [t]

def Begins (n : Node) (tokens : List Token) : Prop := ∃ piece, Conveys n piece ∧ piece <+: tokens

inductive Selects : List Token → List Node → Prop where
  | nil : Selects [] []
  | node {t : Token} {rest : List Token} {n : Node} {nodes : List Node} :
      Begins n (t :: rest) → Selects rest nodes → Selects (t :: rest) (n :: nodes)
  | pass {t : Token} {rest : List Token} {nodes : List Node} :
      (∀ n, ¬ Begins n (t :: rest)) → Selects rest nodes → Selects (t :: rest) nodes

theorem fitsSlot_of_mem_toList (slot : Slot) {mark : Option Token}
    (same : ∀ c ∈ mark, c.kind = slot.kind) : ∀ u ∈ mark.toList, u.FitsSlot := by
  intro u member
  exact ⟨slot, same u (Option.mem_toList.mp member)⟩

theorem fitsSlot_of_mem_ending {arrow : Option Token} {target : Token}
    (ka : ∀ a ∈ arrow, a.kind = .arrow) (kt : target.kind = .register) :
    ∀ u ∈ arrow.toList ++ [target], u.FitsSlot := by
  rw [List.forall_mem_append, List.forall_mem_singleton]
  exact ⟨fitsSlot_of_mem_toList .arrow ka, .destination, kt⟩

theorem Conveys.exists_cons {n : Node} {piece : List Token} (conveys : Conveys n piece) :
    ∃ t taken, piece = t :: taken ∧ t.kind = .opcode ∧ ∀ u ∈ taken, u.FitsSlot := by
  cases conveys with
  | binary names kl kc kr ka kt =>
    have commas := fitsSlot_of_mem_toList .comma kc
    have ending := fitsSlot_of_mem_ending ka kt
    refine ⟨_, _, rfl, names.1, ?_⟩
    rw [List.forall_mem_cons, List.forall_mem_append, List.forall_mem_cons]
    exact ⟨⟨.firstOperand, kl⟩, commas, ⟨.secondOperand, kr⟩, ending⟩
  | access names ks ka kt =>
    have ending := fitsSlot_of_mem_ending ka kt
    exact ⟨_, _, rfl, names.1, List.forall_mem_cons.mpr ⟨⟨.sourceOperand, ks⟩, ending⟩⟩
  | loadI names kv ka kt =>
    have ending := fitsSlot_of_mem_ending ka kt
    exact ⟨_, _, rfl, names.1, List.forall_mem_cons.mpr ⟨⟨.constantValue, kv⟩, ending⟩⟩
  | output names ks =>
    exact ⟨_, _, rfl, names.1, List.forall_mem_singleton.mpr ⟨.outputOperand, ks⟩⟩
  | nop names => exact ⟨_, _, rfl, names.1, by simp⟩

section Operands

variable {slot : Slot} {slots : List Slot} {t : Token} {rest tokens : List Token} {lexemes : List String}

theorem operands_fill_of_operand (operand : slot.isOperand) (same : t.kind = slot.kind) :
    (fill (slot :: slots) (t :: rest)).operands =
      (fill slots rest).operands.map (t.lexeme :: ·) := by
  rw [fill_cons_of_kind same, Filling.operands_taken, if_pos operand]

theorem operands_fill_of_mark (punctuation : ¬ slot.isOperand) {mark : Option Token}
    (same : ∀ c ∈ mark, c.kind = slot.kind) (other : t.kind ≠ slot.kind) :
    (fill (slot :: slots) (mark.toList ++ t :: rest)).operands = (fill slots (t :: rest)).operands := by
  cases mark with
  | none =>
    rw [Option.toList_none, List.nil_append, fill, if_neg other, Filling.missed, if_neg punctuation]
  | some c =>
    rw [Option.toList_some, List.singleton_append, fill_cons_of_kind (same c rfl),
      Filling.operands_taken, if_neg punctuation]

theorem exists_operand_of_fill (operand : slot.isOperand)
    (found : (fill (slot :: slots) tokens).operands = some lexemes) :
    ∃ t rest later, tokens = t :: rest ∧ t.kind = slot.kind ∧ lexemes = t.lexeme :: later ∧
      (fill slots rest).operands = some later := by
  rcases fill_cons_cases slot slots tokens with ⟨t, rest, rfl, same, step⟩ | ⟨-, step⟩
  · rw [operands_fill_of_operand operand same] at found
    obtain ⟨later, behind, rfl⟩ := Option.map_eq_some_iff.mp found
    exact ⟨t, rest, later, rfl, same, rfl, behind⟩
  · rw [step] at found
    exact absurd operand (Filling.operands_missed_eq_some found).1

theorem exists_mark_of_fill (punctuation : ¬ slot.isOperand)
    (found : (fill (slot :: slots) tokens).operands = some lexemes) :
    ∃ (mark : Option Token) (rest : List Token), tokens = mark.toList ++ rest ∧
      (∀ c ∈ mark, c.kind = slot.kind) ∧ (fill slots rest).operands = some lexemes := by
  rcases fill_cons_cases slot slots tokens with ⟨t, rest, rfl, same, step⟩ | ⟨-, step⟩
  · rw [step, Filling.operands_taken, if_neg punctuation] at found
    exact ⟨some t, rest, rfl, by simp [same], found⟩
  · rw [step] at found
    exact ⟨none, tokens, rfl, by simp, (Filling.operands_missed_eq_some found).2⟩

/-- How the instructions with a destination end. -/
theorem operands_fill_ending {arrow : Option Token} {target : Token}
    (ka : ∀ a ∈ arrow, a.kind = .arrow) (kt : target.kind = .register) :
    (fill [.arrow, .destination] (arrow.toList ++ target :: rest)).operands = some [target.lexeme] := by
  rw [operands_fill_of_mark (by decide) ka (by simp [kt, Slot.kind]), operands_fill_of_operand rfl kt]
  rfl

theorem exists_ending_of_fill (found : (fill [.arrow, .destination] tokens).operands = some lexemes) :
    ∃ (arrow : Option Token) (target : Token) (rest : List Token),
      tokens = arrow.toList ++ target :: rest ∧ (∀ a ∈ arrow, a.kind = .arrow) ∧
        target.kind = .register ∧ lexemes = [target.lexeme] := by
  obtain ⟨arrow, _, rfl, ka, fromTarget⟩ := exists_mark_of_fill (by decide) found
  obtain ⟨target, rest, _, rfl, kt, rfl, fromEnd⟩ := exists_operand_of_fill rfl fromTarget
  obtain rfl := Option.some.inj fromEnd
  exact ⟨arrow, target, rest, rfl, ka, kt, rfl⟩

end Operands

theorem begins_of_operands_fill {op : Opcode} {t : Token} {rest : List Token} {lexemes : List String}
    {i : Instruction} (names : t.Names op) (found : (fill op.slots rest).operands = some lexemes)
    (built : Instruction.ofOperands? op lexemes = some i) : Begins ⟨t.line, i⟩ (t :: rest) := by
  cases op with
  | binary op =>
    obtain ⟨left, _, _, rfl, kl, rfl, fromComma⟩ := exists_operand_of_fill rfl found
    obtain ⟨comma, _, rfl, kc, fromRight⟩ := exists_mark_of_fill (by decide) fromComma
    obtain ⟨right, _, _, rfl, kr, rfl, fromArrow⟩ := exists_operand_of_fill rfl fromRight
    obtain ⟨arrow, target, after, rfl, ka, kt, rfl⟩ := exists_ending_of_fill fromArrow
    obtain rfl := Option.some.inj built
    exact ⟨_, .binary names kl kc kr ka kt, after, by simp⟩
  | access op =>
    obtain ⟨source, _, _, rfl, ks, rfl, fromArrow⟩ := exists_operand_of_fill rfl found
    obtain ⟨arrow, target, after, rfl, ka, kt, rfl⟩ := exists_ending_of_fill fromArrow
    obtain rfl := Option.some.inj built
    exact ⟨_, .access names ks ka kt, after, by simp⟩
  | loadI =>
    obtain ⟨value, _, _, rfl, kv, rfl, fromArrow⟩ := exists_operand_of_fill rfl found
    obtain ⟨arrow, target, after, rfl, ka, kt, rfl⟩ := exists_ending_of_fill fromArrow
    obtain rfl := Option.some.inj built
    exact ⟨_, .loadI names kv ka kt, after, by simp⟩
  | output =>
    obtain ⟨source, after, _, rfl, ks, rfl, fromEnd⟩ := exists_operand_of_fill rfl found
    obtain rfl := Option.some.inj fromEnd
    obtain rfl := Option.some.inj built
    exact ⟨_, .output names ks, after, rfl⟩
  | nop =>
    obtain rfl := Option.some.inj found
    obtain rfl := Option.some.inj built
    exact ⟨_, .nop names, rest, rfl⟩

theorem Conveys.operands_fill {n : Node} {t : Token} {taken : List Token}
    (conveys : Conveys n (t :: taken)) (rest : List Token) :
    ∃ op lexemes, t.Names op ∧ (fill op.slots (taken ++ rest)).operands = some lexemes ∧
      Instruction.ofOperands? op lexemes = some n.instruction ∧ n.line = t.line := by
  cases conveys with
  | @binary op _ left right target comma arrow names kl kc kr ka kt =>
    refine ⟨.binary op, [left.lexeme, right.lexeme, target.lexeme], names, ?_, rfl, rfl⟩
    simp only [Opcode.slots, List.cons_append, List.append_assoc, List.nil_append]
    rw [operands_fill_of_operand rfl kl, operands_fill_of_mark (by decide) kc (by simp [kr, Slot.kind]),
      operands_fill_of_operand rfl kr, operands_fill_ending ka kt]
    rfl
  | @access op _ source target arrow names ks ka kt =>
    refine ⟨.access op, [source.lexeme, target.lexeme], names, ?_, rfl, rfl⟩
    simp only [Opcode.slots, List.cons_append, List.append_assoc, List.nil_append]
    rw [operands_fill_of_operand rfl ks, operands_fill_ending ka kt]
    rfl
  | @loadI _ value target arrow names kv ka kt =>
    refine ⟨.loadI, [value.lexeme, target.lexeme], names, ?_, rfl, rfl⟩
    simp only [Opcode.slots, List.cons_append, List.append_assoc, List.nil_append]
    rw [operands_fill_of_operand rfl kv, operands_fill_ending ka kt]
    rfl
  | @output _ source names ks =>
    refine ⟨.output, [source.lexeme], names, ?_, rfl, rfl⟩
    rw [List.singleton_append, Opcode.slots, operands_fill_of_operand rfl ks]
    rfl
  | nop names => exact ⟨.nop, [], names, rfl, rfl, rfl⟩

namespace Program

theorem mem_nodes_start_iff {t : Token} {rest : List Token} {n : Node} :
    n ∈ (start t rest).1.nodes ↔ Begins n (t :: rest) := by
  refine ⟨?_, ?_⟩
  · intro member
    rcases start_cases t rest with ⟨-, step⟩ | ⟨-, -, step⟩ | ⟨op, kind, lexeme, -⟩
    · rw [step] at member
      cases member
    · rw [step] at member
      cases member
    · have names : t.Names op := ⟨kind, lexeme⟩
      rw [nodes_start_of_names names] at member
      simp only [Option.mem_toList, Option.map_eq_some_iff, Option.bind_eq_some_iff] at member
      obtain ⟨i, ⟨lexemes, found, built⟩, rfl⟩ := member
      exact begins_of_operands_fill names found built
  · rintro ⟨piece, conveys, after, whole⟩
    obtain ⟨u, taken, rfl, -, -⟩ := conveys.exists_cons
    obtain ⟨rfl, rfl⟩ := List.cons.inj whole
    obtain ⟨op, lexemes, names, found, built, line⟩ := conveys.operands_fill after
    rw [nodes_start_of_names names, List.append_eq, found, Option.bind_some, built]
    simp [← line]

theorem nodes_start_of_begins {t : Token} {rest : List Token} {n : Node}
    (begins : Begins n (t :: rest)) : (start t rest).1.nodes = [n] :=
  (mem_nodes_start (mem_nodes_start_iff.mpr begins)).1

theorem nodes_start_cases (t : Token) (rest : List Token) :
    ((start t rest).1.nodes = [] ∧ ∀ n, ¬ Begins n (t :: rest)) ∨
      ∃ n, (start t rest).1.nodes = [n] ∧ Begins n (t :: rest) := by
  by_cases some : ∃ n, Begins n (t :: rest)
  · obtain ⟨n, begins⟩ := some
    exact .inr ⟨n, nodes_start_of_begins begins, begins⟩
  · have never : ∀ n, ¬ Begins n (t :: rest) := not_exists.mp some
    refine .inl ⟨?_, never⟩
    rw [List.eq_nil_iff_forall_not_mem]
    intro n member
    exact never n (mem_nodes_start_iff.mp member)

theorem nodes_ofTokens_cons (t : Token) (rest : List Token) :
    (ofTokens (t :: rest)).nodes = (start t rest).1.nodes ++ (ofTokens rest).nodes := by
  obtain ⟨taken, -, again⟩ := exists_second_look t rest
  rw [ofTokens, again]
  rfl

/-- Reports of a sort that no misplaced token gives come from the token they are about, whatever that
    takes. -/
theorem filter_diagnostics_ofTokens_cons {p : Diagnostic → Bool}
    (silent : ∀ u : Token, u.FitsSlot → p u.misplaced = false) (t : Token) (rest : List Token) :
    (ofTokens (t :: rest)).diagnostics.filter p =
      (start t rest).1.diagnostics.filter p ++ (ofTokens rest).diagnostics.filter p := by
  obtain ⟨taken, fits, again⟩ := exists_second_look t rest
  have none : (taken.map Token.misplaced).filter p = [] := by
    rw [List.filter_eq_nil_iff, List.forall_mem_map]
    intro u held
    rw [silent u (fits u held)]
    exact Bool.false_ne_true
  rw [ofTokens, again, diagnostics_append, diagnostics_append, List.filter_append,
    List.filter_append, none, List.nil_append]

end Program

open Program (ofTokens parse start)

theorem selects_iff {tokens : List Token} {nodes : List Node} :
    Selects tokens nodes ↔ (ofTokens tokens).nodes = nodes := by
  induction tokens generalizing nodes with
  | nil =>
    rw [Program.ofTokens_nil]
    exact ⟨fun selects => by cases selects; rfl, fun same => same ▸ .nil⟩
  | cons t rest ih =>
    rw [Program.nodes_ofTokens_cons]
    rcases Program.nodes_start_cases t rest with ⟨none, never⟩ | ⟨n, single, begins⟩
    · rw [none, List.nil_append]
      refine ⟨?_, ?_⟩
      · intro selects
        cases selects with
        | node begins _ => exact absurd begins (never _)
        | pass _ later => exact ih.mp later
      · intro same
        exact .pass never (ih.mpr same)
    · rw [single, List.singleton_append]
      refine ⟨?_, ?_⟩
      · intro selects
        cases selects with
        | @node _ _ m others again later =>
          have unique : [n] = [m] := single.symm.trans (Program.nodes_start_of_begins again)
          rw [ih.mp later, List.head_eq_of_cons_eq unique]
        | pass never _ => exact absurd begins (never n)
      · rintro rfl
        exact .node begins (ih.mpr rfl)

theorem Conveys.nodes_ofTokens {n : Node} {piece : List Token} (conveys : Conveys n piece)
    (before after : List Token) :
    (ofTokens (before ++ piece ++ after)).nodes =
      (ofTokens before).nodes ++ n :: (ofTokens after).nodes := by
  obtain ⟨t, taken, rfl, opcode, fits⟩ := conveys.exists_cons
  have plain : ∀ u ∈ taken, u.kind ≠ .opcode := fun u held => (fits u held).kind_ne_opcode
  have opens : ∀ u ∈ (t :: taken ++ after).head?, u.kind = .opcode := by
    simpa using opcode
  have begins : Begins n (t :: (taken ++ after)) := ⟨_, conveys, after, rfl⟩
  rw [List.append_assoc, Program.ofTokens_append opens, Program.nodes_append, List.cons_append,
    Program.nodes_ofTokens_cons, Program.nodes_start_of_begins begins, Program.ofTokens_append_of_plain plain]
  rfl

/-- The nodes are those found by looking at each opcode and at what is right after it, so neither what
    stands before an opcode nor what follows its last operand makes a difference to its node. -/
theorem nodes_decided_locally :
    (∀ tokens nodes, (parse tokens).nodes = nodes ↔ Selects (Token.withoutComments tokens) nodes) ∧
    ∀ tokens before piece after n, Conveys n piece →
      Token.withoutComments tokens = before ++ piece ++ after →
      (parse tokens).nodes = (ofTokens before).nodes ++ n :: (ofTokens after).nodes := by
  refine ⟨fun tokens nodes => selects_iff.symm, ?_⟩
  intro tokens before piece after n conveys whole
  rw [parse, whole]
  exact conveys.nodes_ofTokens before after

end Iloc
