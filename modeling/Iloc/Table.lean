import Iloc.Instruction
import Iloc.Lines

namespace Iloc

namespace Table

structure Row where
  line : String
  opcode : String
  sources : String
  arrow : String
  destination : String
  deriving DecidableEq, Repr

def Row.ofNode (n : Node) : Row where
  line := toString n.line ++ ":"
  opcode := n.opcode.name
  sources := ", ".intercalate n.instruction.sources
  arrow := if n.instruction.destination?.isSome then "=>" else ""
  destination := n.instruction.destination?.getD ""

structure Layout where
  line : Nat
  opcode : Nat
  sources : Nat
  arrow : Nat
  deriving DecidableEq, Repr

def widest (cells : List String) : Nat := (cells.map String.length).max?.getD 0

theorem length_le_widest {cells : List String} {cell : String} (h : cell ∈ cells) :
    cell.length ≤ widest cells :=
  List.le_max?_getD_of_mem (List.mem_map_of_mem h)

def Layout.ofRows (rows : List Row) : Layout where
  line := widest (rows.map Row.line)
  opcode := widest (rows.map Row.opcode)
  sources := widest (rows.map Row.sources)
  arrow := widest (rows.map Row.arrow)

def pad (width : Nat) (cell : String) : String :=
  cell ++ String.ofList (List.replicate (width + 1 - cell.length) ' ')

theorem pad_length {width : Nat} {cell : String} (fits : cell.length ≤ width) :
    (pad width cell).length = width + 1 := by
  simp only [pad, String.length_append, String.length_ofList, List.length_replicate]
  omega

def Row.text (layout : Layout) (row : Row) : String :=
  pad layout.line row.line ++ pad layout.opcode row.opcode ++ pad layout.sources row.sources ++
    pad layout.arrow row.arrow ++ row.destination

end Table

def table (nodes : List Node) : String :=
  let rows := nodes.map Table.Row.ofNode
  unlines (rows.map (Table.Row.text (.ofRows rows)))

end Iloc
