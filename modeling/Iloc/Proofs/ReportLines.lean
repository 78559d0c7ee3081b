import Iloc.Proofs.Printing
import Iloc.Proofs.TextLines
import Iloc.Report

namespace Iloc

theorem digits_toString (n : Nat) : Digits (toString n).toList := by
  rw [Nat.toString_eq_repr, Nat.toList_repr]
  refine ⟨Nat.toDigits_ne_nil, ?_⟩
  intro c member
  exact Nat.isDigit_of_mem_toDigits (by decide) (by decide) member

theorem unbroken_toString (n : Nat) : Unbroken (toString n) :=
  unbroken_iff_count.mpr (digits_toString n).count_newline

theorem Opcode.unbroken_name (op : Opcode) : Unbroken op.name :=
  unbroken_iff_count.mpr op.count_newline_name

theorem Token.Kind.Lexeme.unbroken {kind : Token.Kind} {lexeme : String} (valid : kind.Lexeme lexeme) :
    Unbroken lexeme := by
  cases kind with
  | opcode =>
    obtain ⟨op, rfl⟩ := valid
    exact op.unbroken_name
  | register => exact unbroken_iff_count.mpr (RegisterName.count_newline valid)
  | constant => exact unbroken_iff_count.mpr (Digits.count_newline valid)
  | comma =>
    obtain rfl : lexeme = "," := valid
    decide
  | arrow =>
    obtain rfl : lexeme = "=>" := valid
    decide
  | comment =>
    obtain ⟨body, rfl, inside⟩ := valid
    simp [Unbroken, inside]

theorem Token.unbroken_text {t : Token} (valid : t.kind.Lexeme t.lexeme) : Unbroken t.text := by
  have space : Unbroken " " := by decide
  have kind : Unbroken t.kind.name := by cases t.kind <;> decide
  simp only [text, unbroken_append]
  exact ⟨⟨⟨⟨unbroken_toString t.line, space⟩, kind⟩, space⟩, valid.unbroken⟩

theorem Diagnostic.unbroken_text {d : Diagnostic} (message : Unbroken d.message) : Unbroken d.text := by
  have opening : Unbroken "Error on line " := by decide
  have colon : Unbroken ": " := by decide
  have line : Unbroken d.line.text := by
    cases d.line with
    | number n => exact unbroken_toString n
    | eof => decide
  have heading : Unbroken ("Error on line " ++ d.line.text ++ ": ") :=
    unbroken_append.mpr ⟨unbroken_append.mpr ⟨opening, line⟩, colon⟩
  exact unbroken_append.mpr ⟨heading, message⟩

theorem unbroken_quoted {opening word : String} (plain : Unbroken opening) (unbroken : Unbroken word) :
    Unbroken (opening ++ word ++ "'") := by
  have quote : Unbroken "'" := by decide
  exact unbroken_append.mpr ⟨unbroken_append.mpr ⟨plain, unbroken⟩, quote⟩

theorem Segment.unbroken_message {s : Segment} (inside : s.text.count '\n' = s.lineBreaks)
    {problem : Problem} (found : s.problem? = some problem) : Unbroken problem.message := by
  -- Words and stray characters break no line.
  cases s with
  | word letters =>
    have word : Unbroken (String.ofList letters) := by
      rw [unbroken_iff_count, String.toList_ofList]
      exact inside
    have found : (if (wordKind? letters).isSome then none
        else some (.invalidIdentifier (String.ofList letters))) = some problem := found
    split at found
    · cases found
    · obtain rfl := Option.some.inj found
      exact unbroken_quoted (by decide : Unbroken "Invalid identifier '") word
  | stray c =>
    have char : Unbroken (String.singleton c) := by
      rw [unbroken_iff_count, String.toList_singleton]
      exact inside
    obtain rfl := Option.some.inj found
    exact unbroken_quoted (by decide : Unbroken "Unexpected character '") char
  | _ => cases found

theorem Cut.unbroken_message {segs : List Segment} {cs : List Char} (cut : Cut segs cs) (line : Nat) :
    ∀ d ∈ (Scan.ofNumbered (Segment.numbered line segs)).diagnostics, Unbroken d.message := by
  induction cut generalizing line with
  | nil => simp [Segment.numbered, Scan.ofNumbered]
  | @cons s segs rest fits cut ih =>
    intro d member
    rw [Segment.numbered, Scan.ofNumbered_cons, List.mem_append, Option.mem_toList] at member
    rcases member with own | later
    · obtain ⟨problem, found, rfl⟩ := Option.map_eq_some_iff.mp own
      exact Segment.unbroken_message fits.count_newline found
    · exact ih _ d later

theorem unbroken_diagnostics (source : String) :
    ∀ d ∈ (analyze source).diagnostics, Unbroken d.text := by
  intro d member
  apply Diagnostic.unbroken_text
  rcases List.mem_append.mp member with scanned | parsed
  · exact (cut_segments source.toList).unbroken_message 1 d scanned
  · have valid := (scannedTokens_withoutComments source).lexeme
    rw [Diagnostic.message]
    rcases Program.problem_of_lexemes valid d parsed with ⟨slot, problem⟩ | ⟨t, -, -, problem⟩
    · rw [problem]
      cases slot <;> decide +kernel
    · rw [problem]
      cases t.kind <;> decide +kernel

theorem Instruction.WellFormed.operand_cases {i : Instruction} (wellFormed : i.WellFormed) :
    ∀ operand ∈ i.operands, RegisterName operand.toList ∨ Digits operand.toList := by
  cases i with
  | binary op left right target =>
    obtain ⟨validLeft, validRight, validTarget⟩ := wellFormed
    simp [operands, sources, destination?, validLeft, validRight, validTarget]
  | access op source target =>
    obtain ⟨validSource, validTarget⟩ := wellFormed
    simp [operands, sources, destination?, validSource, validTarget]
  | loadI value target =>
    obtain ⟨validValue, validTarget⟩ := wellFormed
    simp [operands, sources, destination?, validValue, validTarget]
  | output source =>
    have valid : RegisterName source.toList := wellFormed
    simp [operands, sources, destination?, valid]
  | nop => simp [operands, sources, destination?]

theorem Instruction.WellFormed.unbroken {i : Instruction} (wellFormed : i.WellFormed) :
    ∀ operand ∈ i.operands, Unbroken operand := by
  intro operand member
  rcases wellFormed.operand_cases operand member with register | digits
  · exact unbroken_iff_count.mpr register.count_newline
  · exact unbroken_iff_count.mpr digits.count_newline

def Node.header (n : Node) : String := "Line " ++ toString n.line ++ ": " ++ n.opcode.name

def Node.operandLine (labelled : String × String) : String := "  " ++ labelled.1 ++ ": " ++ labelled.2

def Node.lines (n : Node) : List String := n.header :: n.instruction.labelled.map Node.operandLine

theorem Node.text_eq (n : Node) :
    n.text = n.header ++ String.join ((n.instruction.labelled.map operandLine).map ("\n" ++ ·)) := by
  have lines : (n.instruction.labelled.map operandLine).map ("\n" ++ ·) =
      n.instruction.labelled.map fun labelled => "\n  " ++ labelled.1 ++ ": " ++ labelled.2 := by
    rw [List.map_map]
    apply List.map_congr_left
    intro labelled _
    have indent : "\n" ++ "  " = "\n  " := rfl
    simp only [Function.comp_apply, operandLine, ← String.append_assoc, indent]
  rw [lines]
  rfl

theorem Node.unlines_lines (n : Node) : unlines n.lines = n.text ++ "\n" := by
  have written := join_newline_before (n.instruction.labelled.map operandLine)
  rw [text_eq, String.append_assoc, written, lines, ← String.toList_inj, toList_unlines_cons]
  simp

theorem Node.unbroken_lines {n : Node} (wellFormed : n.instruction.WellFormed) :
    ∀ line ∈ n.lines, Unbroken line := by
  have colon : Unbroken ": " := by decide
  have word : Unbroken "Line " := by decide
  have indent : Unbroken "  " := by decide
  have header : Unbroken n.header := by
    simp only [Node.header, unbroken_append]
    exact ⟨⟨⟨word, unbroken_toString n.line⟩, colon⟩, n.opcode.unbroken_name⟩
  have label : ∀ slot : Slot, ∀ label ∈ slot.label?, Unbroken label := by
    intro slot
    cases slot <;> decide
  rw [lines, List.forall_mem_cons]
  refine ⟨header, ?_⟩
  intro line member
  obtain ⟨⟨name, operand⟩, labelled, rfl⟩ := List.mem_map.mp member
  obtain ⟨named, held⟩ := List.of_mem_zip labelled
  obtain ⟨slot, -, named⟩ := List.mem_filterMap.mp named
  simp only [operandLine, unbroken_append]
  exact ⟨⟨⟨indent, label slot name named⟩, colon⟩, wellFormed.unbroken operand held⟩

theorem Table.unbroken_pad {width : Nat} {cell : String} (unbroken : Unbroken cell) :
    Unbroken (pad width cell) := by
  have spaces : Unbroken (String.ofList (List.replicate (width + 1 - cell.length) ' ')) := by
    simp [Unbroken]
  exact unbroken_append.mpr ⟨unbroken, spaces⟩

theorem Table.Row.unbroken_text {n : Node} (wellFormed : n.instruction.WellFormed) (layout : Layout) :
    Unbroken ((ofNode n).text layout) := by
  have operands := wellFormed.unbroken
  have line : Unbroken (ofNode n).line :=
    unbroken_append.mpr ⟨unbroken_toString n.line, (by decide : Unbroken ":")⟩
  have sources : Unbroken (ofNode n).sources := by
    apply unbroken_intercalate (by decide : Unbroken ", ")
    intro source member
    exact operands source (List.mem_append_left _ member)
  have arrow : Unbroken (ofNode n).arrow := by
    simp only [ofNode]
    split <;> decide
  have destination : Unbroken (ofNode n).destination := by
    simp only [ofNode]
    cases target : n.instruction.destination? with
    | none => decide
    | some name => exact operands name (by simp [Instruction.operands, target])
  simp only [Row.text, unbroken_append]
  exact ⟨⟨⟨⟨unbroken_pad line, unbroken_pad n.opcode.unbroken_name⟩, unbroken_pad sources⟩,
    unbroken_pad arrow⟩, destination⟩

namespace Report

variable {mode : Mode} {asTable : Bool} {source : String}

def listed (mode : Mode) (asTable : Bool) (nodes : List Node) : List String :=
  match mode with
  | .ir =>
    if asTable then
      (nodes.map Table.Row.ofNode).map (Table.Row.text (.ofRows (nodes.map Table.Row.ofNode)))
    else nodes.flatMap Node.lines
  | .scan | .parse => ["VALID ILOC PROGRAM"]

theorem listed_table (nodes : List Node) : listed .ir true nodes =
    (nodes.map Table.Row.ofNode).map (Table.Row.text (.ofRows (nodes.map Table.Row.ofNode))) := rfl

theorem unlines_listed (mode : Mode) (asTable : Bool) (nodes : List Node) :
    unlines (listed mode asTable nodes) = listing mode asTable nodes := by
  cases mode with
  | ir =>
    cases asTable with
    | true => rfl
    | false => exact unlines_flatMap nodes fun n _ => n.unlines_lines
  | scan => rfl
  | parse => rfl

/-- A listing is made of answers, rows and paragraphs. -/
theorem forall_listed {p : String → Prop} {nodes : List Node} (answer : p "VALID ILOC PROGRAM")
    (row : ∀ n ∈ nodes, ∀ layout, p ((Table.Row.ofNode n).text layout))
    (paragraph : ∀ n ∈ nodes, ∀ line ∈ n.lines, p line) :
    ∀ line ∈ listed mode asTable nodes, p line := by
  have single : ∀ line ∈ ["VALID ILOC PROGRAM"], p line := by
    intro line member
    obtain rfl := List.mem_singleton.mp member
    exact answer
  cases mode with
  | ir =>
    cases asTable with
    | true =>
      intro line member
      simp only [listed, if_pos, List.map_map, List.mem_map, Function.comp_apply] at member
      obtain ⟨n, held, rfl⟩ := member
      exact row n held _
    | false =>
      intro line member
      obtain ⟨n, held, member⟩ := List.mem_flatMap.mp member
      exact paragraph n held line member
  | scan => exact single
  | parse => exact single

theorem unbroken_listed {nodes : List Node} (operands : ∀ n ∈ nodes, n.instruction.WellFormed) :
    ∀ line ∈ listed mode asTable nodes, Unbroken line := by
  apply forall_listed
  · decide
  · intro n held layout
    exact Table.Row.unbroken_text (operands n held) layout
  · intro n held
    exact Node.unbroken_lines (operands n held)

theorem unbroken_scan (source : String) :
    ∀ line ∈ (scan source).diagnostics.map Diagnostic.text ++ (scan source).tokens.map Token.text,
      Unbroken line := by
  intro line member
  rcases List.mem_append.mp member with member | member
  · obtain ⟨d, held, rfl⟩ := List.mem_map.mp member
    exact unbroken_diagnostics source d (List.mem_append_left _ held)
  · obtain ⟨t, held, rfl⟩ := List.mem_map.mp member
    exact Token.unbroken_text ((scannedTokens_scan source).lexeme t held)

theorem linesOf_scan (asTable : Bool) (source : String) :
    linesOf (report .scan asTable source).output =
      (scan source).diagnostics.map Diagnostic.text ++ (scan source).tokens.map Token.text :=
  linesOf_unlines (unbroken_scan source)

theorem report_eq_ofAnalysis (other : mode ≠ .scan) (asTable : Bool) (source : String) :
    report mode asTable source = .ofAnalysis mode asTable (analyze source) := by
  cases mode with
  | scan => exact absurd rfl other
  | parse => rfl
  | ir => rfl

theorem linesOf_rejected (asTable : Bool) (other : mode ≠ .scan)
    (rejected : (analyze source).accepted = false) :
    (report mode asTable source).output = unlines ((analyze source).diagnostics.map Diagnostic.text) ∧
      linesOf (report mode asTable source).output = (analyze source).diagnostics.map Diagnostic.text := by
  have output : (report mode asTable source).output =
      unlines ((analyze source).diagnostics.map Diagnostic.text) := by
    simp [report_eq_ofAnalysis other, ofAnalysis, rejected]
  refine ⟨output, ?_⟩
  rw [output, linesOf_unlines]
  intro line member
  obtain ⟨d, held, rfl⟩ := List.mem_map.mp member
  exact unbroken_diagnostics source d held

theorem linesOf_accepted (asTable : Bool) (other : mode ≠ .scan)
    (accepted : (analyze source).accepted = true) :
    (report mode asTable source).output = unlines (listed mode asTable (analyze source).nodes) ∧
      linesOf (report mode asTable source).output = listed mode asTable (analyze source).nodes := by
  have output : (report mode asTable source).output =
      unlines (listed mode asTable (analyze source).nodes) := by
    simp [report_eq_ofAnalysis other, ofAnalysis, accepted, unlines_listed]
  refine ⟨output, ?_⟩
  rw [output, linesOf_unlines (unbroken_listed (allWellFormed_analyze source).operands)]

end Report

end Iloc
