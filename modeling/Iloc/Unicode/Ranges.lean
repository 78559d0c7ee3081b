namespace Iloc.Unicode

/-- Whether `n` lies in one of the ranges, each given by its first and last member. The ranges ascend,
    so the search ends at the first one that starts above `n`. -/
def inRanges : List (Nat × Nat) → Nat → Bool
  | [], _ => false
  | (first, last) :: rest, n => if n < first then false else decide (n ≤ last) || inRanges rest n

theorem inRanges_of_lt_first {n first last : Nat} {rest : List (Nat × Nat)} (h : n < first) :
    inRanges ((first, last) :: rest) n = false := by
  simp [inRanges, h]

theorem inRanges_of_mem_first {n first last : Nat} {rest : List (Nat × Nat)} (low : first ≤ n)
    (high : n ≤ last) : inRanges ((first, last) :: rest) n = true := by
  simp [inRanges, high, Nat.not_lt.mpr low]

end Iloc.Unicode
