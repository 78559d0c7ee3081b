import Iloc.Proofs.TextFields

namespace Iloc

theorem eq_of_toString_eq {n m : Nat} (same : toString n = toString m) : n = m := by
  have read := numeral?_toString n
  rw [same, numeral?_toString] at read
  exact (Option.some.inj read).symm

theorem Opcode.eq_of_name_eq {op other : Opcode} (same : op.name = other.name) : op = other := by
  have found := ofName?_name op
  rw [same, ofName?_name] at found
  exact (Option.some.inj found).symm

namespace Instruction

theorem eq_of_operands_eq {i j : Instruction} (opcode : i.opcode = j.opcode)
    (operands : i.operands = j.operands) : i = j := by
  have read := i.ofOperands?_operands
  rw [opcode, operands, j.ofOperands?_operands] at read
  exact (Option.some.inj read).symm

theorem length_operands (i : Instruction) : i.operands.length = i.opcode.operandLabels.length := by
  cases i <;> rfl

theorem length_labelled (i : Instruction) : i.labelled.length = i.opcode.operandLabels.length := by
  rw [labelled, List.length_zip, length_operands, Nat.min_self]

end Instruction

namespace Node

theorem header_inj {n m : Node} (same : n.header = m.header) :
    n.line = m.line ∧ n.opcode = m.opcode := by
  have cut : ∀ k : Node, cutAt ':' k.header.toList =
      ("Line ".toList ++ (toString k.line).toList, ' ' :: k.opcode.name.toList) := by
    intro k
    have written : k.header.toList =
        ("Line ".toList ++ (toString k.line).toList) ++ ':' :: ' ' :: k.opcode.name.toList := by
      simp [header]
    have absent : ':' ∉ "Line ".toList ++ (toString k.line).toList := by
      rw [List.mem_append, not_or]
      exact ⟨by decide, notMem_toString (by decide) k.line⟩
    rw [written, cutAt_append absent]
  have cuts := cut n
  rw [same, cut m] at cuts
  obtain ⟨number, name⟩ := Prod.mk.inj cuts
  have number := String.toList_inj.mp (List.append_cancel_left number)
  have name := String.toList_inj.mp (List.cons.inj name).2
  exact ⟨(eq_of_toString_eq number).symm, (Opcode.eq_of_name_eq name).symm⟩

def operandOf (line : String) : String := String.ofList (cutAt ':' line.toList).2.tail

theorem operandOf_operandLine {label : String} (plain : ':' ∉ label.toList) (operand : String) :
    operandOf (operandLine (label, operand)) = operand := by
  have written : (operandLine (label, operand)).toList =
      ("  ".toList ++ label.toList) ++ ':' :: ' ' :: operand.toList := by
    simp [operandLine]
  have absent : ':' ∉ "  ".toList ++ label.toList := by
    rw [List.mem_append, not_or]
    exact ⟨by decide, plain⟩
  rw [operandOf, written, cutAt_append absent, List.tail_cons, String.ofList_toList]

theorem map_operandOf_labelled (i : Instruction) :
    (i.labelled.map operandLine).map operandOf = i.operands := by
  have plain : ∀ slot : Slot, ∀ label ∈ slot.label?, ':' ∉ label.toList := by
    intro slot
    cases slot <;> decide
  have reads : ∀ labelled ∈ i.labelled, (operandOf ∘ operandLine) labelled = labelled.2 := by
    intro (label, operand) member
    obtain ⟨slot, -, named⟩ := List.mem_filterMap.mp (List.of_mem_zip member).1
    exact operandOf_operandLine (plain slot label named) operand
  rw [List.map_map, List.map_congr_left reads]
  exact List.map_snd_zip i.length_operands.le

/-- The header of a node tells how many lines come after it. -/
theorem lines_append_inj {n m : Node} {rest others : List String}
    (same : n.lines ++ rest = m.lines ++ others) : n = m ∧ rest = others := by
  obtain ⟨header, same⟩ := List.cons.inj same
  obtain ⟨line, opcode⟩ := header_inj header
  -- Nothing ends a node; only its opcode tells how many operands belong to it.
  have length : (n.instruction.labelled.map operandLine).length =
      (m.instruction.labelled.map operandLine).length := by
    have labels : n.instruction.opcode = m.instruction.opcode := opcode
    rw [List.length_map, List.length_map, Instruction.length_labelled, Instruction.length_labelled,
      labels]
  obtain ⟨own, after⟩ := List.append_inj same length
  have operands := congrArg (List.map operandOf) own
  rw [map_operandOf_labelled, map_operandOf_labelled] at operands
  have instruction := Instruction.eq_of_operands_eq opcode operands
  exact ⟨by cases n; cases m; simp_all, after⟩

theorem flatMap_lines_injective {nodes others : List Node}
    (same : nodes.flatMap lines = others.flatMap lines) : nodes = others := by
  induction nodes generalizing others with
  | nil =>
    cases others with
    | nil => rfl
    | cons m others => cases same
  | cons n nodes ih =>
    cases others with
    | nil => cases same
    | cons m others =>
      rw [List.flatMap_cons, List.flatMap_cons] at same
      obtain ⟨first, later⟩ := lines_append_inj same
      rw [first, ih later]

end Node

def words (cs : List Char) : List (List Char) := (cs.splitOnP (· == ' ')).filter (!·.isEmpty)

theorem words_append_space (left right : List Char) :
    words (left ++ ' ' :: right) = words left ++ words right := by
  rw [words, List.splitOnP_append_cons left right (by decide), List.filter_append]
  rfl

structure Solid (word : List Char) : Prop where
  nonempty : word ≠ []
  unspaced : ' ' ∉ word

theorem Solid.words {word : List Char} (solid : Solid word) : words word = [word] := by
  have letters : ∀ c ∈ word, (c == ' ') = false := by
    intro c member
    exact beq_eq_false_iff_ne.mpr (ne_of_mem_of_not_mem member solid.unspaced)
  rw [Iloc.words, List.splitOnP_eq_singleton letters]
  simp [solid.nonempty]

theorem Digits.solid {cs : List Char} (digits : Digits cs) : Solid cs := by
  refine ⟨digits.1, ?_⟩
  intro member
  exact absurd (digits.2 _ member) (by decide)

theorem RegisterName.solid {letters : List Char} (register : RegisterName letters) : Solid letters := by
  obtain ⟨digits, rfl, digits⟩ := register
  refine ⟨List.cons_ne_nil _ _, ?_⟩
  rw [List.mem_cons, not_or]
  exact ⟨by decide, digits.solid.unspaced⟩

theorem Opcode.solid_name (op : Opcode) : Solid op.name.toList := by
  have plain : ∀ op ∈ all, op.name.toList ≠ [] ∧ ' ' ∉ op.name.toList := by decide
  obtain ⟨nonempty, unspaced⟩ := plain op (mem_all op)
  exact ⟨nonempty, unspaced⟩

theorem Solid.append_char {word : List Char} (solid : Solid word) {c : Char} (other : c ≠ ' ') :
    Solid (word ++ [c]) := by
  refine ⟨by simp, ?_⟩
  rw [List.mem_append, not_or, List.mem_singleton]
  exact ⟨solid.unspaced, other.symm⟩

theorem words_replicate_append (count : Nat) (rest : List Char) :
    words (List.replicate count ' ' ++ rest) = words rest := by
  induction count with
  | zero => rfl
  | succ count ih =>
    have none : words [] = [] := by decide
    have first := words_append_space [] (List.replicate count ' ' ++ rest)
    rw [none, List.nil_append, List.nil_append, ih] at first
    exact first

namespace Table

theorem words_pad_append {width : Nat} {cell : String} (fits : cell.length ≤ width) (rest : List Char) :
    words ((pad width cell).toList ++ rest) = words cell.toList ++ words rest := by
  have spaces : width + 1 - cell.length = (width - cell.length) + 1 := by omega
  rw [pad, spaces, String.toList_append, String.toList_ofList, List.replicate_succ, List.append_assoc,
    List.cons_append, words_append_space, words_replicate_append]

structure Row.Fits (layout : Layout) (row : Row) : Prop where
  line : row.line.length ≤ layout.line
  opcode : row.opcode.length ≤ layout.opcode
  sources : row.sources.length ≤ layout.sources
  arrow : row.arrow.length ≤ layout.arrow

theorem Row.fits_ofRows {rows : List Row} {row : Row} (member : row ∈ rows) :
    row.Fits (.ofRows rows) where
  line := length_le_widest (List.mem_map_of_mem member)
  opcode := length_le_widest (List.mem_map_of_mem member)
  sources := length_le_widest (List.mem_map_of_mem member)
  arrow := length_le_widest (List.mem_map_of_mem member)

/-- How wide the columns are does not show in the words of a row. -/
theorem Row.words_text {layout : Layout} {row : Row} (fits : row.Fits layout) :
    words (row.text layout).toList = words row.line.toList ++ words row.opcode.toList ++
      words row.sources.toList ++ words row.arrow.toList ++ words row.destination.toList := by
  simp only [text, String.toList_append, List.append_assoc, words_pad_append fits.line,
    words_pad_append fits.opcode, words_pad_append fits.sources, words_pad_append fits.arrow]

end Table

def Instruction.words : Instruction → List (List Char)
  | .binary _ left right target =>
    [left.toList ++ [','], right.toList, "=>".toList, target.toList]
  | .access _ source target => [source.toList, "=>".toList, target.toList]
  | .loadI value target => [value.toList, "=>".toList, target.toList]
  | .output source => [source.toList]
  | .nop => []

theorem Instruction.eq_of_words_eq {i j : Instruction} (opcode : i.opcode = j.opcode)
    (same : i.words = j.words) : i = j := by
  cases i <;> cases j <;> cases opcode <;> simp_all [words, String.toList_inj]

def Node.words (n : Node) : List (List Char) :=
  ((toString n.line).toList ++ [':']) :: n.opcode.name.toList :: n.instruction.words

theorem Node.words_injective {n m : Node} (same : n.words = m.words) : n = m := by
  obtain ⟨line, same⟩ := List.cons.inj same
  obtain ⟨opcode, same⟩ := List.cons.inj same
  have number := eq_of_toString_eq (String.toList_inj.mp (List.append_cancel_right line))
  have named := Opcode.eq_of_name_eq (String.toList_inj.mp opcode)
  have instruction := Instruction.eq_of_words_eq named same
  cases n
  cases m
  exact congrArg₂ Node.mk number instruction

namespace Table

theorem Row.words_target {n : Node} {target : String}
    (found : n.instruction.destination? = some target) (solid : Solid target.toList) :
    words (ofNode n).arrow.toList ++ words (ofNode n).destination.toList =
      ["=>".toList, target.toList] := by
  have arrow : Solid "=>".toList := ⟨by decide, by decide⟩
  have cells : (ofNode n).arrow = "=>" ∧ (ofNode n).destination = target := by simp [ofNode, found]
  rw [cells.1, cells.2, arrow.words, solid.words, List.singleton_append]

theorem Row.words_no_target {n : Node} (none : n.instruction.destination? = none) :
    words (ofNode n).arrow.toList ++ words (ofNode n).destination.toList = [] := by
  have cells : (ofNode n).arrow = "" ∧ (ofNode n).destination = "" := by simp [ofNode, none]
  rw [cells.1, cells.2]
  decide

theorem Row.words_single {n : Node} {source : String} (sources : n.instruction.sources = [source])
    (solid : Solid source.toList) : words (ofNode n).sources.toList = [source.toList] := by
  have cell : (ofNode n).sources = source := by simp [ofNode, sources]
  rw [cell, solid.words]

theorem Row.words_operands {n : Node} (wellFormed : n.instruction.WellFormed) :
    words (ofNode n).sources.toList ++
      (words (ofNode n).arrow.toList ++ words (ofNode n).destination.toList) = n.instruction.words := by
  obtain ⟨line, i⟩ := n
  cases i with
  | binary op left right target =>
    obtain ⟨validLeft, validRight, validTarget⟩ := wellFormed
    have both : (ofNode ⟨line, .binary op left right target⟩).sources.toList =
        (left.toList ++ [',']) ++ ' ' :: right.toList := by
      simp [ofNode, Instruction.sources]
    have first := validLeft.solid.append_char (by decide : ',' ≠ ' ')
    rw [both, words_append_space, first.words, validRight.solid.words,
      words_target rfl validTarget.solid]
    rfl
  | access op source target =>
    obtain ⟨validSource, validTarget⟩ := wellFormed
    rw [words_single rfl validSource.solid, words_target rfl validTarget.solid]
    rfl
  | loadI value target =>
    obtain ⟨validValue, validTarget⟩ := wellFormed
    rw [words_single rfl validValue.solid, words_target rfl validTarget.solid]
    rfl
  | output source =>
    have valid : RegisterName source.toList := wellFormed
    rw [words_single rfl valid.solid, words_no_target rfl]
    rfl
  | nop =>
    have none : words "".toList = [] := by decide
    have cell : (ofNode ⟨line, .nop⟩).sources = "" := rfl
    rw [cell, none, words_no_target rfl]
    rfl

theorem Row.words_ofNode {n : Node} (wellFormed : n.instruction.WellFormed) {layout : Layout}
    (fits : (ofNode n).Fits layout) : words ((ofNode n).text layout).toList = n.words := by
  have line : (ofNode n).line.toList = (toString n.line).toList ++ [':'] := String.toList_append
  have opcode : (ofNode n).opcode = n.opcode.name := rfl
  have first := (digits_toString n.line).solid.append_char (by decide : ':' ≠ ' ')
  rw [words_text fits, line, opcode, first.words, n.opcode.solid_name.words, List.append_assoc,
    List.append_assoc, words_operands wellFormed]
  rfl

theorem map_words_rows {nodes : List Node} (wellFormed : ∀ n ∈ nodes, n.instruction.WellFormed) :
    (Report.listed .ir true nodes).map (fun row => words row.toList) = nodes.map Node.words := by
  rw [Report.listed_table, List.map_map, List.map_map]
  apply List.map_congr_left
  intro n member
  rw [Function.comp_apply, Function.comp_apply,
    Row.words_ofNode (wellFormed n member) (Row.fits_ofRows (List.mem_map_of_mem member))]

end Table

theorem listed_injective {nodes others : List Node}
    (wellFormed : ∀ n ∈ nodes, n.instruction.WellFormed)
    (wellFormed' : ∀ n ∈ others, n.instruction.WellFormed) (asTable : Bool)
    (same : Report.listed .ir asTable nodes = Report.listed .ir asTable others) : nodes = others := by
  cases asTable with
  | true =>
    have words := Table.map_words_rows wellFormed
    rw [same, Table.map_words_rows wellFormed'] at words
    exact (List.map_injective_iff.mpr (fun _ _ => Node.words_injective) words).symm
  | false => exact Node.flatMap_lines_injective same

theorem output_ir_eq_iff {source other : String} (accepted : (analyze source).accepted = true)
    (accepted' : (analyze other).accepted = true) (asTable : Bool) :
    (report .ir asTable source).output = (report .ir asTable other).output ↔
      (analyze source).nodes = (analyze other).nodes := by
  have scans : Mode.ir ≠ .scan := by decide
  obtain ⟨written, lines⟩ := Report.linesOf_accepted asTable scans accepted
  obtain ⟨written', lines'⟩ := Report.linesOf_accepted asTable scans accepted'
  constructor
  · intro same
    rw [same, lines'] at lines
    exact (listed_injective (allWellFormed_analyze other).operands
      (allWellFormed_analyze source).operands asTable lines).symm
  · intro same
    rw [written, written', same]

/-- The listing and the table of an accepted program each hold all that its nodes do. -/
theorem listing_and_table_determine_nodes {source other : String}
    (accepted : (analyze source).accepted = true) (accepted' : (analyze other).accepted = true) :
    ((report .ir false source).output = (report .ir false other).output ↔
      (analyze source).nodes = (analyze other).nodes) ∧
    ((analyze source).nodes = (analyze other).nodes ↔
      (report .ir true source).output = (report .ir true other).output) :=
  ⟨output_ir_eq_iff accepted accepted' false, (output_ir_eq_iff accepted accepted' true).symm⟩

theorem listing_and_table_of_other_spacing :
    (analyze "add r1, r2 => r3\noutput r3\nnop").accepted = true ∧
    (analyze "add r1,r2=>r3 // sum\n output\tr3\n nop\n").accepted = true ∧
    ((report .ir false "add r1, r2 => r3\noutput r3\nnop").output =
        (report .ir false "add r1,r2=>r3 // sum\n output\tr3\n nop\n").output ↔
      (analyze "add r1, r2 => r3\noutput r3\nnop").nodes =
        (analyze "add r1,r2=>r3 // sum\n output\tr3\n nop\n").nodes) ∧
    ((analyze "add r1, r2 => r3\noutput r3\nnop").nodes =
        (analyze "add r1,r2=>r3 // sum\n output\tr3\n nop\n").nodes ↔
      (report .ir true "add r1, r2 => r3\noutput r3\nnop").output =
        (report .ir true "add r1,r2=>r3 // sum\n output\tr3\n nop\n").output) := by
  have accepted : (analyze "add r1, r2 => r3\noutput r3\nnop").accepted = true := by decide +kernel
  have accepted' : (analyze "add r1,r2=>r3 // sum\n output\tr3\n nop\n").accepted = true := by
    decide +kernel
  exact ⟨accepted, accepted', listing_and_table_determine_nodes accepted accepted'⟩

end Iloc
