import Iloc.Proofs.ReportLines

namespace Iloc

def cutAt (separator : Char) (cs : List Char) : List Char × List Char :=
  (cs.takeWhile (· ≠ separator), (cs.dropWhile (· ≠ separator)).tail)

theorem cutAt_append {separator : Char} {field : List Char} (absent : separator ∉ field)
    (rest : List Char) : cutAt separator (field ++ separator :: rest) = (field, rest) := by
  have ends : Ends (fun c => decide (c ≠ separator)) (separator :: rest) := by simp [Ends]
  have before : ∀ c ∈ field, decide (c ≠ separator) = true := by
    intro c member
    exact decide_eq_true (ne_of_mem_of_not_mem member absent)
  rw [cutAt, ends.takeWhile_append before, ends.dropWhile_append before, List.tail_cons]

def numeral? (cs : List Char) : Option Nat :=
  if cs ≠ [] ∧ cs.all Char.isDigit then some (Nat.ofDigitChars 10 cs 0) else none

theorem numeral?_toString (n : Nat) : numeral? (toString n).toList = some n := by
  obtain ⟨nonempty, digits⟩ := digits_toString n
  rw [numeral?, if_pos ⟨nonempty, List.all_eq_true.mpr digits⟩, Nat.toString_eq_repr,
    Nat.toList_repr, Nat.ofDigitChars_ten_toDigits]

theorem notMem_toString {c : Char} (other : c.isDigit = false) (n : Nat) :
    c ∉ (toString n).toList := by
  intro member
  rw [(digits_toString n).2 c member] at other
  cases other

end Iloc
