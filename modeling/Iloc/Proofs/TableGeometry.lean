import Iloc.Proofs.Grids
import Iloc.Proofs.Renderings

namespace Iloc

namespace Table

def Layout.widths (layout : Layout) : List Nat :=
  [layout.line, layout.opcode, layout.sources, layout.arrow]

def Row.cells (row : Row) : List String :=
  [row.line, row.opcode, row.sources, row.arrow, row.destination]

end Table

namespace Node

def cells (n : Node) : List String := (Table.Row.ofNode n).cells

theorem length_cells (n : Node) : n.cells.length = 5 := rfl

def Printable (n : Node) : Prop := ∀ cell ∈ n.cells, Iloc.Printable cell

instance (n : Node) : Decidable n.Printable :=
  List.decidableBAll Iloc.Printable n.cells

end Node

def tableOn (grid : Grid) (nodes : List Node) : String := grid.write 5 (nodes.flatMap Node.cells)

namespace Table

theorem widest_le_iff {cells : List String} {width : Nat} :
    widest cells ≤ width ↔ ∀ cell ∈ cells, cell.length ≤ width := by
  constructor
  · intro bound cell member
    exact Nat.le_trans (length_le_widest member) bound
  · intro bound
    unfold widest
    cases found : (cells.map String.length).max? with
    | none => exact Nat.zero_le width
    | some longest =>
      rw [Option.getD_some, List.max?_le_iff found]
      intro length member
      obtain ⟨cell, inside, rfl⟩ := List.mem_map.mp member
      exact bound cell inside

theorem widest_perm {cells others : List String} (same : cells.Perm others) :
    widest cells = widest others := by
  apply Nat.le_antisymm
  · exact widest_le_iff.mpr fun cell member => length_le_widest (same.mem_iff.mp member)
  · exact widest_le_iff.mpr fun cell member => length_le_widest (same.mem_iff.mpr member)

theorem widest_append {cells : List String} {cell : String} (fits : cell.length ≤ widest cells) :
    widest (cells ++ [cell]) = widest cells := by
  apply Nat.le_antisymm
  · rw [widest_le_iff, List.forall_mem_append, List.forall_mem_singleton]
    exact ⟨fun other member => length_le_widest member, fits⟩
  · exact widest_le_iff.mpr fun other member => length_le_widest (List.mem_append_left _ member)

theorem Layout.ofRows_perm {rows others : List Row} (same : rows.Perm others) :
    ofRows rows = ofRows others := by
  unfold ofRows
  rw [widest_perm (same.map Row.line), widest_perm (same.map Row.opcode),
    widest_perm (same.map Row.sources), widest_perm (same.map Row.arrow)]

theorem Layout.ofRows_append {rows : List Row} {row : Row} (fits : row.Fits (ofRows rows)) :
    ofRows (rows ++ [row]) = ofRows rows := by
  unfold ofRows
  simp only [List.map_append, List.map_singleton]
  rw [widest_append fits.line, widest_append fits.opcode, widest_append fits.sources,
    widest_append fits.arrow]

theorem Row.standsAt {layout : Layout} {row : Row} (fits : row.Fits layout) :
    StandsAt (offsetIn layout.widths) row.cells (row.text layout) := by
  have arrow := (StandsAt.single row.destination).padded (List.cons_ne_nil _ _) fits.arrow
  have sources := arrow.padded (List.cons_ne_nil _ _) fits.sources
  have opcode := sources.padded (List.cons_ne_nil _ _) fits.opcode
  have line := opcode.padded (List.cons_ne_nil _ _) fits.line
  have parts : row.text layout = pad layout.line row.line ++ (pad layout.opcode row.opcode ++
      (pad layout.sources row.sources ++ (pad layout.arrow row.arrow ++ row.destination))) := by
    simp only [Row.text, String.append_assoc]
  rw [parts]
  exact line

theorem Row.unbroken_of_printable {row : Row} (printable : ∀ cell ∈ row.cells, Printable cell)
    (layout : Layout) : Unbroken (row.text layout) := by
  simp only [cells, List.forall_mem_cons] at printable
  obtain ⟨line, opcode, sources, arrow, destination, -⟩ := printable
  simp only [Row.text, unbroken_append]
  exact ⟨⟨⟨⟨unbroken_pad line.unbroken, unbroken_pad opcode.unbroken⟩, unbroken_pad sources.unbroken⟩,
    unbroken_pad arrow.unbroken⟩, destination.unbroken⟩

theorem column_map_cells {j : Nat} {field : Row → String}
    (holds : ∀ row : Row, row.cells[j]? = some (field row)) (nodes : List Node) :
    Grid.column j (nodes.map Node.cells) = (nodes.map Row.ofNode).map field := by
  rw [Grid.column, List.filterMap_map, List.map_map, ← List.filterMap_eq_map]
  apply List.filterMap_congr
  intro n _
  exact holds (Row.ofNode n)

theorem widths_ofRows (nodes : List Node) :
    (Layout.ofRows (nodes.map Row.ofNode)).widths =
      (List.range 4).map fun j => widest (Grid.column j (nodes.map Node.cells)) := by
  have line := column_map_cells (fun _ => rfl : ∀ row : Row, row.cells[0]? = some row.line) nodes
  have opcode := column_map_cells (fun _ => rfl : ∀ row : Row, row.cells[1]? = some row.opcode) nodes
  have sources := column_map_cells (fun _ => rfl : ∀ row : Row, row.cells[2]? = some row.sources) nodes
  have arrow := column_map_cells (fun _ => rfl : ∀ row : Row, row.cells[3]? = some row.arrow) nodes
  have inner : List.range 4 = [0, 1, 2, 3] := rfl
  simp only [inner, List.map_cons, List.map_nil, line, opcode, sources, arrow]
  rfl

theorem getElem?_widths_ofRows (nodes : List Node) {j : Nat} (inner : j < 4) :
    (Layout.ofRows (nodes.map Row.ofNode)).widths[j]? =
      some (widest (Grid.column j (nodes.map Node.cells))) := by
  rw [widths_ofRows, List.getElem?_map, List.getElem?_range inner]
  rfl

theorem Row.fits_of_narrow {nodes : List Node} {n : Node}
    (narrow : ∀ j < 4, ∀ cell, n.cells[j]? = some cell →
      cell.length ≤ widest (Grid.column j (nodes.map Node.cells))) :
    (ofNode n).Fits (.ofRows (nodes.map ofNode)) := by
  have fits : ∀ j < 4, ∀ cell width, n.cells[j]? = some cell →
      (Layout.ofRows (nodes.map ofNode)).widths[j]? = some width → cell.length ≤ width := by
    intro j inner cell width held found
    rw [getElem?_widths_ofRows nodes inner] at found
    exact Option.some.inj found ▸ narrow j inner cell held
  exact ⟨fits 0 (by decide) _ _ rfl rfl, fits 1 (by decide) _ _ rfl rfl,
    fits 2 (by decide) _ _ rfl rfl, fits 3 (by decide) _ _ rfl rfl⟩

end Table

section OnGrid

variable {grid : Grid} {nodes : List Node}

theorem Grid.Lawful.row_eq_text (lawful : grid.Lawful) {layout : Table.Layout} {row : Table.Row}
    (printable : ∀ cell ∈ row.cells, Printable cell) (fits : row.Fits layout) (last : Nat) :
    grid.row (layout.widths ++ [last]) row.cells = row.text layout := by
  simp only [Table.Row.cells, List.forall_mem_cons] at printable
  obtain ⟨line, opcode, sources, arrow, -⟩ := printable
  simp only [Table.Layout.widths, Table.Row.cells, List.cons_append, List.nil_append]
  rw [lawful.row_padded line fits.line, lawful.row_padded opcode fits.opcode,
    lawful.row_padded sources fits.sources, lawful.row_padded arrow fits.arrow, lawful.row_last]
  simp only [Table.Row.text, String.append_assoc]

theorem Grid.Lawful.widths_eq (lawful : grid.Lawful) (printable : ∀ n ∈ nodes, n.Printable) :
    grid.widths 5 (nodes.map Node.cells) =
      (Table.Layout.ofRows (nodes.map Table.Row.ofNode)).widths ++
        [Table.widest (column 4 (nodes.map Node.cells))] := by
  have columns : ∀ j, ∀ cell ∈ column j (nodes.map Node.cells), Iloc.Printable cell := by
    intro j cell member
    obtain ⟨cells, inside, held⟩ := List.mem_filterMap.mp member
    obtain ⟨n, member, rfl⟩ := List.mem_map.mp inside
    exact printable n member cell (List.mem_of_getElem? held)
  have inner : List.range 5 = List.range 4 ++ [4] := rfl
  simp only [widths, lawful.widest_eq (columns _)]
  rw [inner, List.map_append, Table.widths_ofRows]
  rfl

/-- A lawful grid has no say in what a table looks like. -/
theorem tableOn_eq (lawful : grid.Lawful) (printable : ∀ n ∈ nodes, n.Printable) :
    tableOn grid nodes = table nodes := by
  have rows : Grid.rowsOf 5 (nodes.flatMap Node.cells) = nodes.map Node.cells :=
    Grid.rowsOf_flatMap (by decide) Node.length_cells nodes
  rw [tableOn, lawful.write_eq (by decide), rows, lawful.widths_eq printable, table, List.map_map,
    List.map_map]
  apply congrArg unlines
  apply List.map_congr_left
  intro n member
  exact lawful.row_eq_text (printable n member) (Table.Row.fits_ofRows (List.mem_map_of_mem member)) _

end OnGrid

/-- How what is written of `nodes` lies in columns: `offset` tells where the columns start, and `row`
    what the row of a node is. -/
structure TableGeometry (write : List Node → String) (nodes : List Node) (offset : Nat → Nat)
    (row : Node → String) : Prop where
  written : write nodes = unlines (nodes.map row)
  unbroken : ∀ n ∈ nodes, Unbroken (row n)
  stands : ∀ n ∈ nodes, StandsAt offset n.cells (row n)
  first : offset 0 = 0
  gap : ∀ j < 4, offset j < offset (j + 1) ∧
    offset (j + 1) - offset j - 1 = Table.widest (Grid.column j (nodes.map Node.cells))
  permuted : ∀ others, others.Perm nodes → write others = unlines (others.map row)
  /-- A node that is not too wide for the columns comes after rows that are what they were. -/
  appended : ∀ n, n.Printable →
    (∀ j < 4, ∀ cell, n.cells[j]? = some cell →
      cell.length ≤ Table.widest (Grid.column j (nodes.map Node.cells))) →
    write (nodes ++ [n]) = unlines (nodes.map row ++ [row n])

/-- On every lawful grid a table has one row for each node, and the cells of all rows stand in the same
    columns, which are as wide as their widest cells. The rows depend on the other nodes through these
    widths alone. -/
theorem table_lies_in_columns {grid : Grid} (lawful : grid.Lawful) {nodes : List Node}
    (printable : ∀ n ∈ nodes, n.Printable) :
    tableOn grid nodes = table nodes ∧
      ∃ offset row, TableGeometry (tableOn grid) nodes offset row := by
  have written : ∀ others : List Node, (∀ n ∈ others, n.Printable) →
      Table.Layout.ofRows (others.map Table.Row.ofNode) = .ofRows (nodes.map Table.Row.ofNode) →
      tableOn grid others = unlines (others.map fun n =>
        (Table.Row.ofNode n).text (.ofRows (nodes.map Table.Row.ofNode))) := by
    intro others printable same
    rw [tableOn_eq lawful printable, table, same, List.map_map]
    rfl
  refine ⟨tableOn_eq lawful printable,
    offsetIn (Table.Layout.ofRows (nodes.map Table.Row.ofNode)).widths,
    fun n => (Table.Row.ofNode n).text (.ofRows (nodes.map Table.Row.ofNode)), ?_⟩
  constructor
  case written => exact written nodes printable rfl
  case unbroken =>
    intro n member
    exact Table.Row.unbroken_of_printable (printable n member) _
  case stands =>
    intro n member
    exact Table.Row.standsAt (Table.Row.fits_ofRows (List.mem_map_of_mem member))
  case first => exact offsetIn_zero _
  case gap =>
    intro j inner
    have next := offsetIn_succ (Table.getElem?_widths_ofRows nodes inner)
    omega
  case permuted =>
    intro others same
    apply written others
    · exact fun n member => printable n (same.mem_iff.mp member)
    · exact Table.Layout.ofRows_perm (same.map _)
  case appended =>
    intro n narrowPrintable narrow
    have all : ∀ m ∈ nodes ++ [n], m.Printable :=
      List.forall_mem_append.mpr ⟨printable, List.forall_mem_singleton.mpr narrowPrintable⟩
    have same : Table.Layout.ofRows ((nodes ++ [n]).map Table.Row.ofNode) =
        .ofRows (nodes.map Table.Row.ofNode) := by
      rw [List.map_append, List.map_singleton,
        Table.Layout.ofRows_append (Table.Row.fits_of_narrow narrow)]
    rw [written (nodes ++ [n]) all same, List.map_append, List.map_singleton]

theorem table_of_loadI_and_nop_lies_in_columns :
    Grid.plain.Lawful ∧ (∀ n ∈ [Node.mk 9 (.loadI "1024" "r1"), ⟨10, .nop⟩], n.Printable) ∧
      tableOn .plain [⟨9, .loadI "1024" "r1"⟩, ⟨10, .nop⟩] =
        table [⟨9, .loadI "1024" "r1"⟩, ⟨10, .nop⟩] ∧
      ∃ offset row,
        TableGeometry (tableOn .plain) [⟨9, .loadI "1024" "r1"⟩, ⟨10, .nop⟩] offset row ∧
        (List.range 5).map offset = [0, 4, 10, 15, 18] := by
  have printable : ∀ n ∈ [Node.mk 9 (.loadI "1024" "r1"), ⟨10, .nop⟩], n.Printable := by
    decide +kernel
  have widths : ∀ j < 4, Table.widest (Grid.column j
      ([⟨9, .loadI "1024" "r1"⟩, ⟨10, .nop⟩].map Node.cells)) = [3, 5, 4, 2].getD j 0 := by
    decide +kernel
  obtain ⟨same, offset, row, geometry⟩ := table_lies_in_columns Grid.lawful_plain printable
  have next : ∀ j < 4, offset (j + 1) = offset j + [3, 5, 4, 2].getD j 0 + 1 := by
    intro j inner
    obtain ⟨later, gap⟩ := geometry.gap j inner
    rw [widths j inner] at gap
    omega
  refine ⟨Grid.lawful_plain, printable, same, offset, row, geometry, ?_⟩
  simp [List.range_succ, geometry.first, next]

end Iloc
