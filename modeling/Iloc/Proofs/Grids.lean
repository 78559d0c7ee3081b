import Iloc.Proofs.TextLines
import Iloc.Table

namespace Iloc

def Printable (text : String) : Prop := ∀ c ∈ text.toList, ' ' ≤ c ∧ c ≤ '~'

instance (text : String) : Decidable (Printable text) :=
  List.decidableBAll (fun c => ' ' ≤ c ∧ c ≤ '~') text.toList

theorem Printable.unbroken {text : String} (printable : Printable text) : Unbroken text := by
  intro newline
  exact absurd (printable '\n' newline).1 (by decide)

structure Grid where
  /-- How many places a text takes. -/
  width : String → Nat
  /-- A row of cells in columns of the given widths. -/
  row : List Nat → List String → String
  /-- Cells in a number of columns. -/
  write : Nat → List String → String

namespace Grid

def rowsOf (columns : Nat) : List String → List (List String)
  | [] => []
  | cell :: cells => (cell :: cells.take (columns - 1)) :: rowsOf columns (cells.drop (columns - 1))
  termination_by cells => cells.length
  decreasing_by
    rw [List.length_drop, List.length_cons]
    omega

def column (j : Nat) (rows : List (List String)) : List String := rows.filterMap (·[j]?)

def widths (grid : Grid) (columns : Nat) (rows : List (List String)) : List Nat :=
  (List.range columns).map fun j => ((column j rows).map grid.width).max?.getD 0

/-- Cells fill rows from left to right and stand on the left of their columns. One space comes after the
    width of a column, but the last cell ends the row. -/
structure Lawful (grid : Grid) : Prop where
  width_of_printable : ∀ {text}, Printable text → grid.width text = text.length
  write_eq : ∀ {columns}, 0 < columns → ∀ cells, grid.write columns cells =
    unlines ((rowsOf columns cells).map (grid.row (grid.widths columns (rowsOf columns cells))))
  row_cons : ∀ {width cell}, grid.width cell ≤ width → ∀ next widths after cells,
    grid.row (width :: next :: widths) (cell :: after :: cells) =
      cell ++ String.ofList (List.replicate (width + 1 - grid.width cell) ' ') ++
        grid.row (next :: widths) (after :: cells)
  row_last : ∀ width cell, grid.row [width] [cell] = cell

def plainRow : List Nat → List String → String
  | _, [] => ""
  | [], _ => ""
  | [_], cell :: _ => cell
  | width :: next :: widths, cell :: cells => Table.pad width cell ++ plainRow (next :: widths) cells

def plain : Grid where
  width := String.length
  row := plainRow
  write columns cells :=
    unlines ((rowsOf columns cells).map (plainRow
      ((List.range columns).map fun j => Table.widest (column j (rowsOf columns cells)))))

theorem lawful_plain : plain.Lawful where
  width_of_printable _ := rfl
  write_eq _ _ := rfl
  row_cons _ _ _ _ _ := rfl
  row_last _ _ := rfl

theorem rowsOf_append {row : List String} {columns : Nat} (pos : 0 < columns)
    (full : row.length = columns) (rest : List String) :
    rowsOf columns (row ++ rest) = row :: rowsOf columns rest := by
  cases row with
  | nil => exact absurd full (Nat.ne_of_lt pos)
  | cons cell row =>
    have others : columns - 1 = row.length := by rw [← full, List.length_cons, Nat.add_sub_cancel]
    rw [List.cons_append, rowsOf, others, List.take_left, List.drop_left]

/-- Items with a full row of cells each get a row each. -/
theorem rowsOf_flatMap {α : Type} {cells : α → List String} {columns : Nat} (pos : 0 < columns)
    (full : ∀ item, (cells item).length = columns) (items : List α) :
    rowsOf columns (items.flatMap cells) = items.map cells := by
  induction items with
  | nil => simp [rowsOf]
  | cons item items ih => rw [List.flatMap_cons, rowsOf_append pos (full item), ih, List.map_cons]

/-- Printable cells are as wide as they are long. -/
theorem Lawful.widest_eq {grid : Grid} (lawful : grid.Lawful) {cells : List String}
    (printable : ∀ cell ∈ cells, Printable cell) :
    (cells.map grid.width).max?.getD 0 = Table.widest cells := by
  have same : cells.map grid.width = cells.map String.length := by
    apply List.map_congr_left
    intro cell member
    exact lawful.width_of_printable (printable cell member)
  rw [same]
  rfl

theorem Lawful.row_padded {grid : Grid} (lawful : grid.Lawful) {width : Nat} {cell : String}
    (printable : Printable cell) (fits : cell.length ≤ width) (next : Nat) (widths : List Nat)
    (after : String) (cells : List String) :
    grid.row (width :: next :: widths) (cell :: after :: cells) =
      Table.pad width cell ++ grid.row (next :: widths) (after :: cells) := by
  have same := lawful.width_of_printable printable
  rw [lawful.row_cons (same.trans_le fits), same]
  rfl

end Grid

def offsetIn : List Nat → Nat → Nat
  | width :: widths, j + 1 => width + 1 + offsetIn widths j
  | _, _ => 0

theorem offsetIn_zero (widths : List Nat) : offsetIn widths 0 = 0 := by
  cases widths <;> rfl

theorem offsetIn_cons (width : Nat) (widths : List Nat) (j : Nat) :
    offsetIn (width :: widths) (j + 1) = width + 1 + offsetIn widths j := rfl

theorem offsetIn_succ {widths : List Nat} {j width : Nat} (found : widths[j]? = some width) :
    offsetIn widths (j + 1) = offsetIn widths j + width + 1 := by
  induction widths generalizing j with
  | nil => cases found
  | cons first widths ih =>
    cases j with
    | zero =>
      obtain rfl := Option.some.inj found
      rw [offsetIn_cons, offsetIn_zero, offsetIn_zero]
      omega
    | succ j =>
      rw [offsetIn_cons, offsetIn_cons, ih found]
      omega

/-- The cells of a row stand at the offsets of their columns, apart from each other and with nothing but
    spaces around them, and the last cell ends the row. -/
structure StandsAt (offset : Nat → Nat) (cells : List String) (row : String) : Prop where
  cell : ∀ {j cell}, cells[j]? = some cell → cell.toList <+: row.toList.drop (offset j)
  apart : ∀ {j cell}, cells[j]? = some cell → j + 1 < cells.length →
    offset j + cell.length + 1 ≤ offset (j + 1)
  blank : ∀ {p}, p < row.length →
    (∀ j cell, cells[j]? = some cell → p < offset j ∨ offset j + cell.length ≤ p) →
    row.toList[p]? = some ' '
  ends : ∀ {last}, cells.getLast? = some last → row.length = offset (cells.length - 1) + last.length

namespace StandsAt

theorem single (cell : String) : StandsAt (offsetIn []) [cell] cell where
  cell {j c} found := by
    cases j with
    | zero =>
      obtain rfl := Option.some.inj found
      exact List.prefix_refl _
    | succ j => cases found
  apart {j c} _ next := absurd next (by simp)
  blank {p} inside free := by
    rcases free 0 cell rfl with before | after
    · exact absurd before (Nat.not_lt_zero p)
    · rw [offsetIn_zero, Nat.zero_add] at after
      exact absurd inside (Nat.not_lt.mpr after)
  ends {last} found := by
    obtain rfl := Option.some.inj found
    exact (Nat.zero_add _).symm

variable {widths : List Nat} {cells : List String} {row : String}

theorem padded (stands : StandsAt (offsetIn widths) cells row) (nonempty : cells ≠ []) {width : Nat}
    {cell : String} (fits : cell.length ≤ width) :
    StandsAt (offsetIn (width :: widths)) (cell :: cells) (Table.pad width cell ++ row) := by
  have length := Table.pad_length fits
  have before : (Table.pad width cell).toList.length = width + 1 := by
    rw [String.length_toList, length]
  -- The first cell is settled here; all that is said of a later one is moved on by its column.
  constructor
  case cell =>
    intro j c found
    cases j with
    | zero =>
      obtain rfl := Option.some.inj found
      rw [offsetIn_zero, List.drop_zero, Table.pad, String.toList_append, String.toList_append,
        List.append_assoc]
      exact List.prefix_append _ _
    | succ j =>
      rw [offsetIn_cons, String.toList_append, ← before, List.drop_length_add_append]
      exact stands.cell found
  case apart =>
    intro j c found next
    cases j with
    | zero =>
      obtain rfl := Option.some.inj found
      rw [offsetIn_cons, offsetIn_zero, offsetIn_zero]
      omega
    | succ j =>
      have later := stands.apart found (Nat.lt_of_succ_lt_succ next)
      rw [offsetIn_cons, offsetIn_cons]
      omega
  case blank =>
    intro p inside free
    rw [String.toList_append]
    by_cases first : p < width + 1
    · have after : cell.length ≤ p := by
        have own := free 0 cell rfl
        rw [offsetIn_zero] at own
        omega
      rw [List.getElem?_append_left (by rwa [before]), Table.pad, String.toList_append,
        List.getElem?_append_right (by rwa [String.length_toList]), String.toList_ofList,
        String.length_toList, List.getElem?_replicate, if_pos (by omega)]
    · rw [List.getElem?_append_right (by rwa [before, ← Nat.not_lt]), before]
      apply stands.blank
      · rw [String.length_append, length] at inside
        omega
      · intro j c found
        have later := free (j + 1) c found
        rw [offsetIn_cons] at later
        omega
  case ends =>
    intro last found
    rw [List.getLast?_cons_of_ne_nil nonempty] at found
    have last_column : (cell :: cells).length - 1 = cells.length - 1 + 1 := by
      have pos := List.length_pos_iff.mpr nonempty
      rw [List.length_cons]
      omega
    rw [String.length_append, length, stands.ends found, last_column, offsetIn_cons,
      Nat.add_assoc (width + 1)]

end StandsAt

end Iloc
