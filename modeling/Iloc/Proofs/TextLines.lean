import Iloc.Lines
import Mathlib.Data.List.Infix

namespace Iloc

/-- The lines of a text, without the newlines that end them. What follows the last newline counts as a
    line of its own, unless it is empty. -/
def splitLines : List Char → List (List Char)
  | [] => []
  | c :: cs =>
    if c = '\n' then [] :: splitLines cs
    else
      match splitLines cs with
      | [] => [[c]]
      | line :: lines => (c :: line) :: lines

def linesOf (text : String) : List String := (splitLines text.toList).map String.ofList

theorem splitLines_append {line : List Char} (unbroken : '\n' ∉ line) (rest : List Char) :
    splitLines (line ++ '\n' :: rest) = line :: splitLines rest := by
  induction line with
  | nil => simp [splitLines]
  | cons c line ih =>
    simp only [List.mem_cons, not_or] at unbroken
    obtain ⟨other, unbroken⟩ := unbroken
    rw [List.cons_append, splitLines, if_neg (Ne.symm other), ih unbroken]

theorem toList_unlines (entries : List String) :
    (unlines entries).toList = entries.flatMap fun entry => entry.toList ++ ['\n'] := by
  simp [unlines, String.toList_join, List.flatMap_map]

theorem toList_unlines_cons (entry : String) (entries : List String) :
    (unlines (entry :: entries)).toList = entry.toList ++ '\n' :: (unlines entries).toList := by
  simp [toList_unlines]

/-- Newlines in front of the entries and one at the end are as good as one after each. -/
theorem join_newline_before (entries : List String) :
    String.join (entries.map ("\n" ++ ·)) ++ "\n" = "\n" ++ unlines entries := by
  rw [← String.toList_inj]
  simp only [String.toList_append, String.toList_join, toList_unlines, List.flatMap_map]
  induction entries with
  | nil => rfl
  | cons entry entries ih =>
    simp only [List.flatMap_cons, List.append_assoc, ih]
    rfl

/-- An entry can be a paragraph, which is written as its lines are. -/
theorem unlines_flatMap {α : Type} (items : List α) {lines : α → List String} {text : α → String}
    (same : ∀ item ∈ items, unlines (lines item) = text item ++ "\n") :
    unlines (items.flatMap lines) = unlines (items.map text) := by
  rw [← String.toList_inj]
  induction items with
  | nil => rfl
  | cons item items ih =>
    obtain ⟨first, same⟩ := List.forall_mem_cons.mp same
    have head := congrArg String.toList first
    have tail := ih same
    rw [toList_unlines, String.toList_append] at head
    rw [toList_unlines, toList_unlines] at tail
    simp [toList_unlines, head, tail]

def Unbroken (text : String) : Prop := '\n' ∉ text.toList

instance (text : String) : Decidable (Unbroken text) :=
  inferInstanceAs (Decidable ('\n' ∉ text.toList))

theorem unbroken_iff_count {text : String} : Unbroken text ↔ text.toList.count '\n' = 0 :=
  List.count_eq_zero.symm

@[simp]
theorem unbroken_append {left right : String} :
    Unbroken (left ++ right) ↔ Unbroken left ∧ Unbroken right := by
  simp [Unbroken, not_or]

theorem unbroken_intercalate {separator : String} (plain : Unbroken separator) {parts : List String}
    (unbroken : ∀ part ∈ parts, Unbroken part) : Unbroken (separator.intercalate parts) := by
  induction parts with
  | nil => simp [Unbroken]
  | cons part parts ih =>
    obtain ⟨first, later⟩ := List.forall_mem_cons.mp unbroken
    cases parts with
    | nil => simpa using first
    | cons next parts => simp [first, plain, ih later]

theorem linesOf_unlines {entries : List String} (unbroken : ∀ entry ∈ entries, Unbroken entry) :
    linesOf (unlines entries) = entries := by
  induction entries with
  | nil => rfl
  | cons entry entries ih =>
    obtain ⟨first, unbroken⟩ := List.forall_mem_cons.mp unbroken
    have later : (splitLines (unlines entries).toList).map String.ofList = entries := ih unbroken
    rw [linesOf, toList_unlines_cons, splitLines_append first, List.map_cons, later,
      String.ofList_toList]

theorem count_newline_unlines {entries : List String} (unbroken : ∀ entry ∈ entries, Unbroken entry) :
    (unlines entries).toList.count '\n' = entries.length := by
  induction entries with
  | nil => rfl
  | cons entry entries ih =>
    obtain ⟨first, unbroken⟩ := List.forall_mem_cons.mp unbroken
    rw [toList_unlines_cons, List.count_append, List.count_eq_zero.mpr first, List.count_cons_self,
      ih unbroken, List.length_cons, Nat.zero_add]

/-- A listing begins as its first line does. -/
theorem startsWith_unlines {start : String} (unbroken : Unbroken start) (nonempty : start ≠ "")
    (entries : List String) :
    (unlines entries).startsWith start = entries.head?.any (·.startsWith start) := by
  cases entries with
  | nil => simpa [unlines, String.startsWith_string_eq_false_iff] using nonempty
  | cons entry entries =>
    have same : start.toList <+: (unlines (entry :: entries)).toList ↔ start.toList <+: entry.toList := by
      rw [toList_unlines_cons]
      constructor
      · intro begins
        have ended : entry.toList ++ ['\n'] <+: entry.toList ++ '\n' :: (unlines entries).toList := by
          simp
        -- A text without a newline ends before the first line does.
        rcases List.prefix_or_prefix_of_prefix begins ended with within | beyond
        · rcases List.prefix_concat_iff.mp within with whole | within
          · exact absurd (by simp [whole]) unbroken
          · exact within
        · exact absurd (beyond.subset (by simp)) unbroken
      · intro begins
        exact begins.trans (List.prefix_append _ _)
    rw [List.head?_cons, Option.any_some, Bool.eq_iff_iff, String.startsWith_string_iff,
      String.startsWith_string_iff]
    exact same

end Iloc
