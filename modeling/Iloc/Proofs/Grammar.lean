import Iloc.Analysis
import Iloc.Proofs.Resumption
import Mathlib.Data.List.Forall2

namespace Iloc

def Token.Names (op : Opcode) (t : Token) : Prop := t.kind = .opcode ∧ t.lexeme = op.name

/-- The tokens of one complete instruction, and the node it stands for. -/
inductive Spells : Node → List Token → Prop where
  | binary {op : BinaryOp} {t left comma right arrow target : Token} :
      t.Names (.binary op) → left.kind = .register → comma.kind = .comma → right.kind = .register →
        arrow.kind = .arrow → target.kind = .register →
        Spells ⟨t.line, .binary op left.lexeme right.lexeme target.lexeme⟩
          [t, left, comma, right, arrow, target]
  | access {op : Access} {t source arrow target : Token} :
      t.Names (.access op) → source.kind = .register → arrow.kind = .arrow → target.kind = .register →
        Spells ⟨t.line, .access op source.lexeme target.lexeme⟩ [t, source, arrow, target]
  | loadI {t value arrow target : Token} :
      t.Names .loadI → value.kind = .constant → arrow.kind = .arrow → target.kind = .register →
        Spells ⟨t.line, .loadI value.lexeme target.lexeme⟩ [t, value, arrow, target]
  | output {t source : Token} :
      t.Names .output → source.kind = .register → Spells ⟨t.line, .output source.lexeme⟩ [t, source]
  | nop {t : Token} : t.Names .nop → Spells ⟨t.line, .nop⟩ [t]

structure Derivation (tokens : List Token) (nodes : List Node) (pieces : List (List Token)) : Prop where
  spelled : List.Forall₂ Spells nodes pieces
  whole : pieces.flatten = tokens

theorem Spells.of_kinds {op : Opcode} {t : Token} {taken : List Token} (names : t.Names op)
    (kinds : taken.map Token.kind = op.slots.map Slot.kind) : ∃ n, Spells n (t :: taken) := by
  cases op <;>
    simp only [Opcode.slots, List.map_cons, List.map_nil, List.map_eq_cons_iff,
      List.map_eq_nil_iff] at kinds
  case binary op =>
    obtain ⟨left, _, rfl, kl, comma, _, rfl, kc, right, _, rfl, kr, arrow, _, rfl, ka, target, _,
      rfl, kt, rfl⟩ := kinds
    exact ⟨_, .binary names kl kc kr ka kt⟩
  case access op =>
    obtain ⟨source, _, rfl, ks, arrow, _, rfl, ka, target, _, rfl, kt, rfl⟩ := kinds
    exact ⟨_, .access names ks ka kt⟩
  case loadI =>
    obtain ⟨value, _, rfl, kv, arrow, _, rfl, ka, target, _, rfl, kt, rfl⟩ := kinds
    exact ⟨_, .loadI names kv ka kt⟩
  case output =>
    obtain ⟨source, _, rfl, ks, rfl⟩ := kinds
    exact ⟨_, .output names ks⟩
  case nop =>
    subst kinds
    exact ⟨_, .nop names⟩

theorem Spells.exists_cons {n : Node} {piece : List Token} (spells : Spells n piece) :
    ∃ t taken, piece = t :: taken := by
  cases spells <;> exact ⟨_, _, rfl⟩

theorem Spells.kind_ne_comment {n : Node} {piece : List Token} (spells : Spells n piece) :
    ∀ t ∈ piece, t.kind ≠ .comment := by
  cases spells with
  | binary names kl kc kr ka kt => simp [names.1, kl, kc, kr, ka, kt]
  | access names ks ka kt => simp [names.1, ks, ka, kt]
  | loadI names kv ka kt => simp [names.1, kv, ka, kt]
  | output names ks => simp [names.1, ks]
  | nop names => simp [names.1]

/-- The tokens after the opcode are of the kinds that its slots ask for, and bring the operands. -/
theorem Spells.exists_opcode {n : Node} {t : Token} {taken : List Token} (spells : Spells n (t :: taken)) :
    ∃ op, t.Names op ∧ n.line = t.line ∧ taken.map Token.kind = op.slots.map Slot.kind ∧
      Instruction.ofOperands? op (operandLexemes op.slots taken) = some n.instruction := by
  cases spells with
  | @binary op _ left comma right arrow target names kl kc kr ka kt =>
    exact ⟨.binary op, names, rfl, by simp [kl, kc, kr, ka, kt, Opcode.slots, Slot.kind], rfl⟩
  | @access op _ source arrow target names ks ka kt =>
    exact ⟨.access op, names, rfl, by simp [ks, ka, kt, Opcode.slots, Slot.kind], rfl⟩
  | loadI names kv ka kt =>
    exact ⟨.loadI, names, rfl, by simp [kv, ka, kt, Opcode.slots, Slot.kind], rfl⟩
  | output names ks => exact ⟨.output, names, rfl, by simp [ks, Opcode.slots, Slot.kind], rfl⟩
  | nop names => exact ⟨.nop, names, rfl, rfl, rfl⟩

namespace Program

theorem start_of_names {op : Opcode} {t : Token} (names : t.Names op) (rest : List Token) :
    start t rest = (ofFilling t.line op (fill op.slots rest), (fill op.slots rest).rest) := by
  simp [start, names.1, names.2, Opcode.ofName?_name]

theorem nodes_start_of_names {op : Opcode} {t : Token} (names : t.Names op) (rest : List Token) :
    (start t rest).1.nodes = (((fill op.slots rest).operands.bind
      (Instruction.ofOperands? op)).map (Node.mk t.line)).toList := by
  rw [start_of_names names]
  rfl

theorem start_of_kinds {op : Opcode} {i : Instruction} {t : Token} {taken : List Token}
    (names : t.Names op) (kinds : taken.map Token.kind = op.slots.map Slot.kind)
    (operands : Instruction.ofOperands? op (operandLexemes op.slots taken) = some i)
    (rest : List Token) : start t (taken ++ rest) = (⟨[⟨t.line, i⟩], []⟩, rest) := by
  simp [start_of_names names, fill_append_of_kinds kinds, ofFilling, operands]

/-- A complete instruction is read as its node, whatever follows it. -/
theorem start_of_spells {n : Node} {t : Token} {taken : List Token} (spells : Spells n (t :: taken))
    (rest : List Token) : start t (taken ++ rest) = (⟨[n], []⟩, rest) := by
  obtain ⟨op, names, line, kinds, operands⟩ := spells.exists_opcode
  rw [start_of_kinds names kinds operands, ← line]

theorem spells_of_start {t : Token} {rest : List Token}
    (clean : (start t rest).1.diagnostics = []) :
    ∃ n taken, Spells n (t :: taken) ∧ rest = taken ++ (start t rest).2 := by
  rcases start_cases t rest with ⟨-, same⟩ | ⟨-, -, same⟩ | ⟨op, kind, lexeme, same⟩
  · simp [same, report] at clean
  · simp [same, report] at clean
  · rw [same] at clean ⊢
    obtain ⟨taken, whole, kinds⟩ := fill_takes_every_kind clean
    obtain ⟨n, spells⟩ := Spells.of_kinds ⟨kind, lexeme⟩ kinds
    exact ⟨n, taken, spells, whole⟩

theorem exists_derivation {tokens : List Token} (clean : (ofTokens tokens).diagnostics = []) :
    ∃ nodes pieces, Derivation tokens nodes pieces := by
  fun_induction ofTokens tokens with
  | case1 => exact ⟨[], [], .nil, rfl⟩
  | case2 t rest ih =>
    rw [diagnostics_append, List.append_eq_nil_iff] at clean
    obtain ⟨n, taken, spells, whole⟩ := spells_of_start clean.1
    obtain ⟨nodes, pieces, derivation⟩ := ih clean.2
    refine ⟨n :: nodes, (t :: taken) :: pieces, .cons spells derivation.spelled, ?_⟩
    rw [List.flatten_cons, derivation.whole, List.cons_append, ← whole]

end Program

open Program (ofTokens parse)

namespace Derivation

variable {tokens : List Token} {nodes : List Node} {pieces : List (List Token)}

/-- Complete instructions are read the same whatever follows them. -/
theorem ofTokens_append (derivation : Derivation tokens nodes pieces) (following : List Token) :
    ofTokens (tokens ++ following) = ⟨nodes, []⟩ ++ ofTokens following := by
  obtain ⟨spelled, rfl⟩ := derivation
  induction spelled with
  | nil => rfl
  | @cons n piece nodes pieces spells spelled ih =>
    obtain ⟨t, taken, rfl⟩ := spells.exists_cons
    rw [List.flatten_cons, List.append_assoc, List.cons_append, ofTokens,
      Program.start_of_spells spells, ih, ← Program.append_assoc]
    rfl

theorem ofTokens_eq (derivation : Derivation tokens nodes pieces) : ofTokens tokens = ⟨nodes, []⟩ := by
  have read := derivation.ofTokens_append []
  rwa [List.append_nil, Program.ofTokens_nil, Program.append_empty] at read

theorem pieces_unique {others : List Node} {cuts : List (List Token)}
    (left : Derivation tokens nodes pieces) (right : Derivation tokens others cuts) :
    cuts = pieces := by
  obtain ⟨spelled, rfl⟩ := left
  induction spelled generalizing others cuts with
  | nil =>
    obtain ⟨spelled, whole⟩ := right
    cases spelled with
    | nil => rfl
    | cons spells _ => cases spells <;> simp at whole
  | @cons n piece nodes pieces spells spelled ih =>
    obtain ⟨otherSpelled, whole⟩ := right
    cases otherSpelled with
    | nil => cases spells <;> simp at whole
    | @cons m cut others cuts otherSpells otherSpelled =>
      obtain ⟨t, taken, rfl⟩ := spells.exists_cons
      obtain ⟨u, otherTaken, rfl⟩ := otherSpells.exists_cons
      simp only [List.flatten_cons, List.cons_append, List.cons.injEq] at whole
      obtain ⟨rfl, whole⟩ := whole
      -- Both cuts read the instruction that starts with `t`, so both leave the same rest.
      have step := Program.start_of_spells otherSpells cuts.flatten
      rw [whole, Program.start_of_spells spells pieces.flatten] at step
      have rest : pieces.flatten = cuts.flatten := congrArg Prod.snd step
      rw [← rest] at whole
      rw [List.append_cancel_right whole, ih ⟨otherSpelled, rest.symm⟩]

theorem withoutComments_eq (derivation : Derivation tokens nodes pieces) :
    Token.withoutComments tokens = tokens := by
  obtain ⟨spelled, rfl⟩ := derivation
  apply Token.withoutComments_of_code
  induction spelled with
  | nil => simp
  | @cons n piece nodes pieces spells spelled ih =>
    rw [List.flatten_cons, List.forall_mem_append]
    exact ⟨spells.kind_ne_comment, ih⟩

end Derivation

theorem diagnostics_ofTokens_eq_nil_iff (tokens : List Token) :
    (ofTokens tokens).diagnostics = [] ↔ ∃ nodes pieces, Derivation tokens nodes pieces := by
  refine ⟨Program.exists_derivation, ?_⟩
  intro exists_pieces
  obtain ⟨nodes, pieces, derivation⟩ := exists_pieces
  rw [derivation.ofTokens_eq]

theorem diagnostics_analyze_eq_nil_iff (source : String) :
    (analyze source).diagnostics = [] ↔
      (scan source).diagnostics = [] ∧ (parse (scan source).tokens).diagnostics = [] :=
  List.append_eq_nil_iff

/-- Nothing is reported exactly of the programs of the grammar. Their cut into instructions is unique,
    and the nodes are those of its pieces. -/
theorem parse_accepts_iff_derivation (tokens : List Token) (source : String) :
    ((parse tokens).diagnostics = [] ↔
      ∃ nodes pieces, Derivation (Token.withoutComments tokens) nodes pieces) ∧
    (∀ nodes pieces, Derivation (Token.withoutComments tokens) nodes pieces →
      (parse tokens).nodes = nodes ∧
        ∀ others cuts, Derivation (Token.withoutComments tokens) others cuts → cuts = pieces) ∧
    ((analyze source).diagnostics = [] ↔
      (scan source).diagnostics = [] ∧
        ∃ nodes pieces, Derivation (Token.withoutComments (scan source).tokens) nodes pieces) := by
  refine ⟨diagnostics_ofTokens_eq_nil_iff _, ?_, ?_⟩
  · intro nodes pieces derivation
    refine ⟨congrArg Program.nodes derivation.ofTokens_eq, ?_⟩
    intro others cuts other
    exact derivation.pieces_unique other
  · rw [diagnostics_analyze_eq_nil_iff]
    exact and_congr_right fun _ => diagnostics_ofTokens_eq_nil_iff _

end Iloc
