import Iloc.Proofs.Grammar
import Iloc.Proofs.ParsedNodes
import Iloc.Proofs.ScannedTokens

namespace Iloc

structure Node.AllWellFormed (nodes : List Node) : Prop where
  operands : ∀ n ∈ nodes, n.instruction.WellFormed
  positive : ∀ n ∈ nodes, 1 ≤ n.line
  ordered : nodes.Pairwise fun n m => n.line ≤ m.line

def Instruction.source : Instruction → String
  | .binary op left right target => op.name ++ " " ++ left ++ ", " ++ right ++ " => " ++ target
  | .access op source target => op.name ++ " " ++ source ++ " => " ++ target
  | .loadI value target => "loadI " ++ value ++ " => " ++ target
  | .output source => "output " ++ source
  | .nop => "nop"

def newlines (count : Nat) : String := String.ofList (List.replicate count '\n')

/-- Instructions written after one on `line`, each on its own line; a space parts those that share one. -/
def sourceAfter (line : Nat) : List Node → String
  | [] => ""
  | n :: rest =>
    (if n.line = line then " " else newlines (n.line - line)) ++ n.instruction.source ++
      sourceAfter n.line rest

def sourceOf : List Node → String
  | [] => ""
  | n :: rest => newlines (n.line - 1) ++ n.instruction.source ++ sourceAfter n.line rest

def Instruction.placed (gap : List Char) : Instruction → List Placed
  | .binary op left right target =>
    [⟨.opcode, op.name, [' ']⟩, ⟨.register, left, []⟩, ⟨.comma, ",", [' ']⟩,
      ⟨.register, right, [' ']⟩, ⟨.arrow, "=>", [' ']⟩, ⟨.register, target, gap⟩]
  | .access op source target =>
    [⟨.opcode, op.name, [' ']⟩, ⟨.register, source, [' ']⟩, ⟨.arrow, "=>", [' ']⟩,
      ⟨.register, target, gap⟩]
  | .loadI value target =>
    [⟨.opcode, "loadI", [' ']⟩, ⟨.constant, value, [' ']⟩, ⟨.arrow, "=>", [' ']⟩,
      ⟨.register, target, gap⟩]
  | .output source => [⟨.opcode, "output", [' ']⟩, ⟨.register, source, gap⟩]
  | .nop => [⟨.opcode, "nop", gap⟩]

def gapAfter (line : Nat) : List Node → List Char
  | [] => []
  | n :: _ => if n.line = line then [' '] else List.replicate (n.line - line) '\n'

def placedNodes : List Node → List Placed
  | [] => []
  | n :: rest => n.instruction.placed (gapAfter n.line rest) ++ placedNodes rest

theorem Instruction.text_placed (i : Instruction) (gap : List Char) :
    (i.placed gap).flatMap Placed.text = i.source.toList ++ gap := by
  cases i <;> simp [placed, source, Placed.text]

theorem toList_sourceAfter (line : Nat) (nodes : List Node) :
    (sourceAfter line nodes).toList =
      gapAfter line nodes ++ (placedNodes nodes).flatMap Placed.text := by
  induction nodes generalizing line with
  | nil => rfl
  | cons n rest ih =>
    have gap : (if n.line = line then " " else newlines (n.line - line)).toList =
        gapAfter line (n :: rest) := by
      by_cases same : n.line = line <;> simp [gapAfter, newlines, same]
    simp [sourceAfter, gap, placedNodes, Instruction.text_placed, ih]

def layoutOf (nodes : List Node) : SourceLayout where
  lead := List.replicate ((nodes.head?.map Node.line).getD 1 - 1) '\n'
  placed := placedNodes nodes

theorem text_layoutOf (nodes : List Node) : (layoutOf nodes).text = sourceOf nodes := by
  cases nodes with
  | nil => rfl
  | cons n rest =>
    rw [← String.toList_inj]
    simp [SourceLayout.text, layoutOf, sourceOf, placedNodes, newlines, Instruction.text_placed,
      toList_sourceAfter]

theorem Placed.AllLegal.cons {rest : List Placed} (legal : AllLegal rest) (p : Placed)
    (valid : p.kind.Lexeme p.lexeme) (white : AllWhite p.gap) (code : p.kind ≠ .comment)
    (apart : p.gap ≠ [] ∨ next rest = none ∨ next rest = some .comma) : AllLegal (p :: rest) := by
  refine ⟨valid, white, ⟨?_, ?_, fun comment => absurd comment code⟩, legal⟩
  · intro _ word
    rcases apart with nonempty | last | comma
    · exact nonempty
    · simp [last] at word
    · simp [comma] at word
  · intro _ number
    rcases apart with nonempty | last | comma
    · exact nonempty
    · simp [last] at number
    · simp [comma] at number

theorem Placed.AllLegal.spaced {rest : List Placed} (legal : AllLegal rest) (kind : Token.Kind)
    {lexeme : String} (valid : kind.Lexeme lexeme) (code : kind ≠ .comment) :
    AllLegal (⟨kind, lexeme, [' ']⟩ :: rest) := by
  have white : AllWhite [' '] := by simp [AllWhite, IsWhite]
  exact legal.cons _ valid white code (.inl (List.cons_ne_nil _ _))

theorem Placed.AllLegal.last {rest : List Placed} (legal : AllLegal rest) (kind : Token.Kind)
    {lexeme : String} {gap : List Char} (valid : kind.Lexeme lexeme) (code : kind ≠ .comment)
    (white : AllWhite gap) (apart : rest ≠ [] → gap ≠ []) :
    AllLegal (⟨kind, lexeme, gap⟩ :: rest) := by
  apply legal.cons _ valid white code
  by_cases none : rest = []
  · rw [none]
    exact .inr (.inl rfl)
  · exact .inl (apart none)

theorem Instruction.WellFormed.allLegal {i : Instruction} (wellFormed : i.WellFormed) {gap : List Char}
    {rest : List Placed} (legal : Placed.AllLegal rest) (white : AllWhite gap)
    (apart : rest ≠ [] → gap ≠ []) : Placed.AllLegal (i.placed gap ++ rest) := by
  have noWhite : AllWhite [] := by simp [AllWhite]
  cases i with
  | binary op left right target =>
    obtain ⟨validLeft, validRight, validTarget⟩ := wellFormed
    have fromTarget := legal.last .register validTarget (by decide) white apart
    have fromArrow := fromTarget.spaced .arrow rfl (by decide)
    have fromRight := fromArrow.spaced .register validRight (by decide)
    have fromComma := fromRight.spaced .comma rfl (by decide)
    have fromLeft := fromComma.cons ⟨.register, left, []⟩ validLeft noWhite (by simp)
      (.inr (.inr rfl))
    exact fromLeft.spaced .opcode ⟨.binary op, rfl⟩ (by decide)
  | access op source target =>
    obtain ⟨validSource, validTarget⟩ := wellFormed
    have fromTarget := legal.last .register validTarget (by decide) white apart
    have fromArrow := fromTarget.spaced .arrow rfl (by decide)
    have fromSource := fromArrow.spaced .register validSource (by decide)
    exact fromSource.spaced .opcode ⟨.access op, rfl⟩ (by decide)
  | loadI value target =>
    obtain ⟨validValue, validTarget⟩ := wellFormed
    have fromTarget := legal.last .register validTarget (by decide) white apart
    have fromArrow := fromTarget.spaced .arrow rfl (by decide)
    have fromValue := fromArrow.spaced .constant validValue (by decide)
    exact fromValue.spaced .opcode ⟨.loadI, rfl⟩ (by decide)
  | output source =>
    have fromSource := legal.last .register wellFormed (by decide) white apart
    exact fromSource.spaced .opcode ⟨.output, rfl⟩ (by decide)
  | nop => exact legal.last .opcode ⟨.nop, rfl⟩ (by decide) white apart

section Gaps

variable {line : Nat} {n : Node} {rest : List Node}

theorem allWhite_gapAfter (line : Nat) (nodes : List Node) : AllWhite (gapAfter line nodes) := by
  cases nodes with
  | nil => simp [gapAfter, AllWhite]
  | cons n rest =>
    by_cases same : n.line = line <;> simp [gapAfter, AllWhite, IsWhite, same]

theorem gapAfter_ne_nil (after : line ≤ n.line) : gapAfter line (n :: rest) ≠ [] := by
  by_cases same : n.line = line
  · simp [gapAfter, same]
  · have positive : n.line - line ≠ 0 := by omega
    simp [gapAfter, same, positive]

theorem count_gapAfter (line : Nat) (n : Node) (rest : List Node) :
    (gapAfter line (n :: rest)).count '\n' = n.line - line := by
  by_cases same : n.line = line
  · simp [gapAfter, same]
  · simp [gapAfter, same]

end Gaps

theorem allLegal_placedNodes {nodes : List Node} (operands : ∀ n ∈ nodes, n.instruction.WellFormed)
    (ordered : nodes.Pairwise fun n m => n.line ≤ m.line) : Placed.AllLegal (placedNodes nodes) := by
  induction nodes with
  | nil => exact True.intro
  | cons n rest ih =>
    obtain ⟨first, operands⟩ := List.forall_mem_cons.mp operands
    obtain ⟨below, ordered⟩ := List.pairwise_cons.mp ordered
    apply first.allLegal (ih operands ordered) (allWhite_gapAfter _ _)
    intro more
    cases rest with
    | nil => exact absurd rfl more
    | cons m rest => exact gapAfter_ne_nil (below m List.mem_cons_self)

theorem legal_layoutOf {nodes : List Node} (wellFormed : Node.AllWellFormed nodes) :
    (layoutOf nodes).Legal := by
  refine ⟨?_, allLegal_placedNodes wellFormed.operands wellFormed.ordered⟩
  intro c member
  exact .inr (.inr (.inr (List.eq_of_mem_replicate member)))

theorem Digits.count_newline {cs : List Char} (digits : Digits cs) : cs.count '\n' = 0 := by
  apply List.count_eq_zero.mpr
  intro member
  exact absurd (digits.2 _ member) (by decide)

theorem RegisterName.count_newline {letters : List Char} (register : RegisterName letters) :
    letters.count '\n' = 0 := by
  obtain ⟨digits, rfl, digits⟩ := register
  rw [List.count_cons_of_ne (by decide), digits.count_newline]

theorem Opcode.count_newline_name (op : Opcode) : op.name.toList.count '\n' = 0 := by
  have none : ∀ op ∈ all, op.name.toList.count '\n' = 0 := by decide
  exact none op (mem_all op)

theorem Instruction.WellFormed.count_newline_source {i : Instruction} (wellFormed : i.WellFormed) :
    i.source.toList.count '\n' = 0 := by
  cases i with
  | binary op left right target =>
    obtain ⟨validLeft, validRight, validTarget⟩ := wellFormed
    have name : op.name.toList.count '\n' = 0 := Opcode.count_newline_name (.binary op)
    simp [source, name, validLeft.count_newline, validRight.count_newline, validTarget.count_newline]
  | access op source target =>
    obtain ⟨validSource, validTarget⟩ := wellFormed
    have name : op.name.toList.count '\n' = 0 := Opcode.count_newline_name (.access op)
    simp [Instruction.source, name, validSource.count_newline, validTarget.count_newline]
  | loadI value target =>
    obtain ⟨validValue, validTarget⟩ := wellFormed
    simp [source, validValue.count_newline, validTarget.count_newline]
  | output source =>
    have valid : RegisterName source.toList := wellFormed
    simp [Instruction.source, valid.count_newline]
  | nop => rfl

theorem Placed.tokens_append (before : List Char) (left right : List Placed) :
    tokens before (left ++ right) =
      tokens before left ++ tokens (before ++ left.flatMap text) right := by
  induction left generalizing before with
  | nil => simp [tokens]
  | cons p left ih => simp [tokens, ih]

theorem Instruction.spells_placed (i : Instruction) (before gap : List Char) :
    Spells ⟨1 + before.count '\n', i⟩ (Placed.tokens before (i.placed gap)) := by
  cases i with
  | binary op left right target =>
    exact @Spells.binary op ⟨_, .opcode, _⟩ ⟨_, .register, _⟩ ⟨_, .comma, _⟩ ⟨_, .register, _⟩
      ⟨_, .arrow, _⟩ ⟨_, .register, _⟩ ⟨rfl, rfl⟩ rfl rfl rfl rfl rfl
  | access op source target =>
    exact @Spells.access op ⟨_, .opcode, _⟩ ⟨_, .register, _⟩ ⟨_, .arrow, _⟩ ⟨_, .register, _⟩
      ⟨rfl, rfl⟩ rfl rfl rfl
  | loadI value target =>
    exact @Spells.loadI ⟨_, .opcode, _⟩ ⟨_, .constant, _⟩ ⟨_, .arrow, _⟩ ⟨_, .register, _⟩
      ⟨rfl, rfl⟩ rfl rfl rfl
  | output source => exact @Spells.output ⟨_, .opcode, _⟩ ⟨_, .register, _⟩ ⟨rfl, rfl⟩ rfl
  | nop => exact @Spells.nop ⟨_, .opcode, _⟩ ⟨rfl, rfl⟩

theorem exists_derivation_placedNodes {nodes : List Node}
    (operands : ∀ n ∈ nodes, n.instruction.WellFormed)
    (ordered : nodes.Pairwise fun n m => n.line ≤ m.line) {before : List Char}
    (start : ∀ n ∈ nodes.head?, 1 + before.count '\n' = n.line) :
    ∃ pieces, Derivation (Placed.tokens before (placedNodes nodes)) nodes pieces := by
  induction nodes generalizing before with
  | nil => exact ⟨[], .nil, rfl⟩
  | cons n rest ih =>
    obtain ⟨first, operands⟩ := List.forall_mem_cons.mp operands
    obtain ⟨below, ordered⟩ := List.pairwise_cons.mp ordered
    have line : 1 + before.count '\n' = n.line := start n rfl
    have spells := n.instruction.spells_placed before (gapAfter n.line rest)
    rw [line] at spells
    -- The white space after an instruction leads to the line of the next one.
    have next : ∀ m ∈ rest.head?,
        1 + (before ++ (n.instruction.placed (gapAfter n.line rest)).flatMap Placed.text).count '\n' =
          m.line := by
      intro m head
      obtain ⟨rest, rfl⟩ := List.head?_eq_some_iff.mp head
      have ahead := below m List.mem_cons_self
      rw [Instruction.text_placed, List.count_append, List.count_append,
        first.count_newline_source, count_gapAfter]
      omega
    obtain ⟨pieces, derivation⟩ := ih operands ordered next
    refine ⟨_ :: pieces, .cons spells derivation.spelled, ?_⟩
    rw [List.flatten_cons, derivation.whole, placedNodes, Placed.tokens_append]

theorem analyze_sourceOf {nodes : List Node} (wellFormed : Node.AllWellFormed nodes) :
    (analyze (sourceOf nodes)).nodes = nodes ∧ (analyze (sourceOf nodes)).diagnostics = [] := by
  have start : ∀ n ∈ nodes.head?, 1 + (layoutOf nodes).lead.count '\n' = n.line := by
    intro n head
    have positive := wellFormed.positive n (List.mem_of_mem_head? head)
    rw [Option.mem_def] at head
    simp only [layoutOf, head, List.count_replicate_self, Option.map_some, Option.getD_some]
    omega
  obtain ⟨pieces, derivation⟩ :=
    exists_derivation_placedNodes wellFormed.operands wellFormed.ordered start
  have scanned := (legal_layoutOf wellFormed).scan_text
  have parsed : Program.parse (layoutOf nodes).tokens = ⟨nodes, []⟩ := by
    have tokens : Derivation (layoutOf nodes).tokens nodes pieces := derivation
    rw [Program.parse, tokens.withoutComments_eq, tokens.ofTokens_eq]
  have analysis : analyze (sourceOf nodes) = ⟨⟨(layoutOf nodes).tokens, []⟩, ⟨nodes, []⟩⟩ := by
    rw [analyze, ← text_layoutOf, scanned, Analysis.ofScan, parsed]
  rw [analysis]
  exact ⟨rfl, rfl⟩

theorem scannedTokens_withoutComments (source : String) :
    ScannedTokens 1 (1 + source.toList.count '\n') (Token.withoutComments (scan source).tokens) :=
  (scannedTokens_scan source).sublist List.filter_sublist

theorem allWellFormed_analyze (source : String) : Node.AllWellFormed (analyze source).nodes := by
  have scanned := scannedTokens_withoutComments source
  have lines := Program.lines_sublist (Token.withoutComments (scan source).tokens)
  refine ⟨Program.wellFormed_of_lexemes scanned.lexeme, ?_, ?_⟩
  · intro n member
    obtain ⟨t, held, line⟩ := List.mem_map.mp (lines.subset (List.mem_map_of_mem member))
    rw [← line]
    exact scanned.lower t held
  · have ordered := (List.pairwise_map.mpr scanned.ordered).sublist lines
    exact List.pairwise_map.mp ordered

theorem line_le_of_mem_analyze {source : String} {n : Node} (member : n ∈ (analyze source).nodes) :
    n.line ≤ 1 + source.toList.count '\n' := by
  have scanned := scannedTokens_withoutComments source
  have lines := Program.lines_sublist (Token.withoutComments (scan source).tokens)
  obtain ⟨t, held, line⟩ := List.mem_map.mp (lines.subset (List.mem_map_of_mem member))
  rw [← line]
  exact scanned.upper t held

/-- Printing nodes and analyzing the text gives them back; every analysis, also of a rejected text,
    gives nodes that can be printed. -/
theorem analyze_inverts_printing :
    (∀ nodes, Node.AllWellFormed nodes →
      (analyze (sourceOf nodes)).nodes = nodes ∧ (analyze (sourceOf nodes)).diagnostics = []) ∧
    (∀ source, Node.AllWellFormed (analyze source).nodes ∧
      ∀ n ∈ (analyze source).nodes, n.line ≤ 1 + source.toList.count '\n') ∧
    ∀ source, (analyze (sourceOf (analyze source).nodes)).nodes = (analyze source).nodes ∧
      (analyze (sourceOf (analyze source).nodes)).diagnostics = [] := by
  refine ⟨fun nodes wellFormed => analyze_sourceOf wellFormed, ?_, ?_⟩
  · intro source
    exact ⟨allWellFormed_analyze source, fun n member => line_le_of_mem_analyze member⟩
  · intro source
    exact analyze_sourceOf (allWellFormed_analyze source)

end Iloc
