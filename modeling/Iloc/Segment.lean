import Iloc.Unicode.Alphanumeric

namespace Iloc

open Unicode (isAlphabetic isAlphanumeric)

/-- A piece of source text. Every text is a sequence of segments with nothing in between. -/
inductive Segment where
  | newline
  | blank (c : Char)
  | comment (body : List Char)
  | arrow
  | comma
  | number (digits : List Char)
  | word (letters : List Char)
  | stray (c : Char)
  deriving DecidableEq, Repr

namespace Segment

def text : Segment → List Char
  | .newline => ['\n']
  | .blank c => [c]
  | .comment body => '/' :: '/' :: body
  | .arrow => ['=', '>']
  | .comma => [',']
  | .number digits => digits
  | .word letters => letters
  | .stray c => [c]

def isBlank (c : Char) : Bool := c == ' ' || c == '\t' || c == '\r'

def first (c : Char) (cs : List Char) : Segment × List Char :=
  if c = '\n' then (.newline, cs)
  else if isBlank c then (.blank c, cs)
  else if c = '/' ∧ cs.head? = some '/' then
    (.comment (cs.tail.takeWhile (· ≠ '\n')), cs.tail.dropWhile (· ≠ '\n'))
  else if c = '=' ∧ cs.head? = some '>' then (.arrow, cs.tail)
  else if c = ',' then (.comma, cs)
  else if c.isDigit then (.number (c :: cs.takeWhile Char.isDigit), cs.dropWhile Char.isDigit)
  else if isAlphabetic c then
    (.word (c :: cs.takeWhile isAlphanumeric), cs.dropWhile isAlphanumeric)
  else (.stray c, cs)

theorem first_text (c : Char) (cs : List Char) : (first c cs).1.text ++ (first c cs).2 = c :: cs := by
  unfold first
  split
  · simp [text, *]
  split
  · simp [text]
  split
  · rename_i slashes
    obtain ⟨rfl, head⟩ := slashes
    obtain ⟨rest, rfl⟩ := List.head?_eq_some_iff.mp head
    simp [text]
  split
  · rename_i sign
    obtain ⟨rfl, head⟩ := sign
    obtain ⟨rest, rfl⟩ := List.head?_eq_some_iff.mp head
    simp [text]
  split
  · simp [text, *]
  split
  · simp [text]
  split <;> simp [text]

theorem text_ne_nil_of_first (c : Char) (cs : List Char) : (first c cs).1.text ≠ [] := by
  unfold first
  repeat' split
  all_goals simp [text]

theorem first_length_le (c : Char) (cs : List Char) : (first c cs).2.length ≤ cs.length := by
  have whole := congrArg List.length (first_text c cs)
  have pos := List.length_pos_iff.mpr (text_ne_nil_of_first c cs)
  simp only [List.length_append, List.length_cons] at whole
  omega

end Segment

def segments : List Char → List Segment
  | [] => []
  | c :: cs => (Segment.first c cs).1 :: segments (Segment.first c cs).2
  termination_by cs => cs.length
  decreasing_by exact Nat.lt_succ_of_le (Segment.first_length_le c cs)

theorem segments_text (cs : List Char) : (segments cs).flatMap Segment.text = cs := by
  fun_induction segments cs with
  | case1 => rfl
  | case2 c cs ih => rw [List.flatMap_cons, ih, Segment.first_text]

end Iloc
