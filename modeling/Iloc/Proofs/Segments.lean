import Iloc.Segment
import Mathlib.Data.List.TakeWhile

namespace Iloc

open Unicode (isAlphabetic isAlphanumeric)

/-- A run of characters with property `p` ends before `rest`. -/
def Ends (p : Char → Bool) (rest : List Char) : Prop := ∀ c ∈ rest.head?, p c = false

section Runs

variable {p : Char → Bool} {run rest : List Char}

theorem Ends.takeWhile_eq_nil (ends : Ends p rest) : rest.takeWhile p = [] := by
  cases rest with
  | nil => rfl
  | cons c rest => simp [ends c rfl]

theorem Ends.dropWhile_eq_self (ends : Ends p rest) : rest.dropWhile p = rest := by
  cases rest with
  | nil => rfl
  | cons c rest => simp [ends c rfl]

theorem Ends.takeWhile_append (ends : Ends p rest) (all : ∀ c ∈ run, p c = true) :
    (run ++ rest).takeWhile p = run := by
  rw [List.takeWhile_append_of_pos all, ends.takeWhile_eq_nil, List.append_nil]

theorem Ends.dropWhile_append (ends : Ends p rest) (all : ∀ c ∈ run, p c = true) :
    (run ++ rest).dropWhile p = rest := by
  rw [List.dropWhile_append_of_pos all, ends.dropWhile_eq_self]

theorem ends_dropWhile (p : Char → Bool) (cs : List Char) : Ends p (cs.dropWhile p) := by
  intro c head
  have stop := List.head?_dropWhile_not p cs
  rw [Option.mem_def.mp head] at stop
  exact stop

end Runs

theorem not_isAlphabetic_of_isDigit {c : Char} (digit : c.isDigit = true) : isAlphabetic c = false := by
  apply Unicode.isAlphabetic_eq_false_of_lt
  simp only [Char.isDigit, Bool.and_eq_true, decide_eq_true_eq, ge_iff_le, UInt32.le_iff_toNat_le] at digit
  exact Nat.lt_of_le_of_lt digit.2 (by decide)

namespace Segment

/-- Which segments are well formed in front of `rest`: what text they hold, and that they hold as much
    of the text as they can. -/
def Fits (rest : List Char) : Segment → Prop
  | .newline => True
  | .blank c => c = ' ' ∨ c = '\t' ∨ c = '\r'
  | .comment body => '\n' ∉ body ∧ ∀ c ∈ rest.head?, c = '\n'
  | .arrow => True
  | .comma => True
  | .number digits =>
    digits ≠ [] ∧ (∀ d ∈ digits, d.isDigit = true) ∧ ∀ c ∈ rest.head?, c.isDigit = false
  | .word letters =>
    (∃ c ∈ letters.head?, isAlphabetic c = true) ∧ (∀ c ∈ letters, isAlphanumeric c = true) ∧
      ∀ c ∈ rest.head?, isAlphanumeric c = false
  | .stray c =>
    c ∉ [' ', '\t', '\r', '\n', ','] ∧ c.isDigit = false ∧ isAlphabetic c = false ∧
      ¬ (c = '/' ∧ rest.head? = some '/') ∧ ¬ (c = '=' ∧ rest.head? = some '>')

theorem first_fits (c : Char) (cs : List Char) : (first c cs).1.Fits (first c cs).2 := by
  unfold first
  split
  · exact True.intro
  rename_i newline
  split
  · rename_i blank
    simpa [Fits, isBlank, or_assoc] using blank
  rename_i blank
  split
  · refine ⟨?_, ?_⟩
    · intro member
      simpa using List.mem_takeWhile_imp member
    · intro c head
      simpa using ends_dropWhile _ _ c head
  rename_i comment
  split
  · exact True.intro
  rename_i arrow
  split
  · exact True.intro
  rename_i comma
  split
  · rename_i digit
    refine ⟨List.cons_ne_nil _ _, ?_, ends_dropWhile _ _⟩
    intro d member
    rcases List.mem_cons.mp member with rfl | member
    · exact digit
    · exact List.mem_takeWhile_imp member
  rename_i digit
  split
  · rename_i letter
    refine ⟨⟨c, rfl, letter⟩, ?_, ends_dropWhile _ _⟩
    intro d member
    rcases List.mem_cons.mp member with rfl | member
    · exact Unicode.isAlphanumeric_of_isAlphabetic letter
    · exact List.mem_takeWhile_imp member
  rename_i letter
  refine ⟨?_, by simpa using digit, by simpa using letter, comment, arrow⟩
  simp only [isBlank, Bool.or_eq_true, beq_iff_eq, not_or] at blank
  simp [newline, blank, comma]

theorem Fits.text_ne_nil {s : Segment} {rest : List Char} (fits : s.Fits rest) : s.text ≠ [] := by
  cases s with
  | number digits => exact fits.1
  | word letters =>
    obtain ⟨⟨c, head, -⟩, -, -⟩ := fits
    intro empty
    rw [text] at empty
    rw [empty] at head
    cases head
  | _ => exact List.cons_ne_nil _ _

structure EndedBy (s : Segment) (c : Char) : Prop where
  alphanumeric : isAlphanumeric c = false
  sign : c ≠ '>'
  slash : s = .stray '/' → c ≠ '/'
  comment : ∀ body, s = .comment body → c = '\n'

theorem EndedBy.digit {s : Segment} {c : Char} (ended : s.EndedBy c) : c.isDigit = false := by
  apply Bool.eq_false_iff.mpr
  intro digit
  have start := ended.alphanumeric
  rw [Unicode.isAlphanumeric_of_isDigit digit] at start
  cases start

/-- Of the text after it, a segment depends on the first character alone. -/
theorem Fits.of_head {s : Segment} {rest other : List Char} (fits : s.Fits rest)
    (head : other.head? = rest.head? ∨ ∃ c ∈ other.head?, s.EndedBy c) : s.Fits other := by
  rcases head with same | ⟨c, head, ended⟩
  · unfold Fits at fits ⊢
    rw [same]
    exact fits
  · cases s with
    | newline => exact True.intro
    | blank b => exact fits
    | comment body =>
      refine ⟨fits.1, ?_⟩
      rw [head]
      simpa using ended.comment body rfl
    | arrow => exact True.intro
    | comma => exact True.intro
    | number digits =>
      refine ⟨fits.1, fits.2.1, ?_⟩
      rw [head]
      simpa using ended.digit
    | word letters =>
      refine ⟨fits.1, fits.2.1, ?_⟩
      rw [head]
      simpa using ended.alphanumeric
    | stray b =>
      obtain ⟨plain, digit, letter, -, -⟩ := fits
      refine ⟨plain, digit, letter, ?_, ?_⟩
      · rintro ⟨rfl, slash⟩
        rw [head] at slash
        exact ended.slash rfl (Option.some.inj slash)
      · rintro ⟨-, sign⟩
        rw [head] at sign
        exact ended.sign (Option.some.inj sign)

theorem first_of_isAlphanumeric {c : Char} (start : isAlphanumeric c = true) (cs : List Char) :
    first c cs =
      if c.isDigit then (.number (c :: cs.takeWhile Char.isDigit), cs.dropWhile Char.isDigit)
      else if isAlphabetic c then
        (.word (c :: cs.takeWhile isAlphanumeric), cs.dropWhile isAlphanumeric)
      else (.stray c, cs) := by
  -- None of the marks that open other segments is alphanumeric.
  have apart : ∀ d, isAlphanumeric d = false → c ≠ d := by
    intro d mark same
    rw [same, mark] at start
    cases start
  have newline := apart '\n' (by decide)
  have space := apart ' ' (by decide)
  have tab := apart '\t' (by decide)
  have carriage := apart '\r' (by decide)
  have slash := apart '/' (by decide)
  have sign := apart '=' (by decide)
  have comma := apart ',' (by decide)
  simp [first, isBlank, newline, space, tab, carriage, slash, sign, comma]

theorem first_comment {body rest : List Char} (inside : '\n' ∉ body)
    (stop : ∀ c ∈ rest.head?, c = '\n') :
    first '/' ('/' :: (body ++ rest)) = (.comment body, rest) := by
  have run : ∀ c ∈ body, decide (c ≠ '\n') = true := by
    intro c member
    exact decide_eq_true fun same => inside (same ▸ member)
  have ends : Ends (fun c => decide (c ≠ '\n')) rest := by
    intro c head
    simpa using stop c head
  have cut : first '/' ('/' :: (body ++ rest)) =
      (.comment ((body ++ rest).takeWhile (· ≠ '\n')), (body ++ rest).dropWhile (· ≠ '\n')) := rfl
  rw [cut, ends.takeWhile_append run, ends.dropWhile_append run]

theorem first_number {d : Char} {digits rest : List Char}
    (inside : ∀ e ∈ d :: digits, e.isDigit = true) (stop : ∀ c ∈ rest.head?, c.isDigit = false) :
    first d (digits ++ rest) = (.number (d :: digits), rest) := by
  obtain ⟨digit, run⟩ := List.forall_mem_cons.mp inside
  have ends : Ends Char.isDigit rest := stop
  rw [first_of_isAlphanumeric (Unicode.isAlphanumeric_of_isDigit digit), if_pos digit,
    ends.takeWhile_append run, ends.dropWhile_append run]

theorem first_word {c : Char} {letters rest : List Char} (letter : isAlphabetic c = true)
    (inside : ∀ d ∈ letters, isAlphanumeric d = true)
    (stop : ∀ d ∈ rest.head?, isAlphanumeric d = false) :
    first c (letters ++ rest) = (.word (c :: letters), rest) := by
  have digit : ¬ c.isDigit = true := by
    intro digit
    rw [not_isAlphabetic_of_isDigit digit] at letter
    cases letter
  have ends : Ends isAlphanumeric rest := stop
  rw [first_of_isAlphanumeric (Unicode.isAlphanumeric_of_isAlphabetic letter), if_neg digit,
    if_pos letter, ends.takeWhile_append inside, ends.dropWhile_append inside]

theorem Fits.first_eq {s : Segment} {c : Char} {cs rest : List Char} (fits : s.Fits rest)
    (whole : s.text ++ rest = c :: cs) : first c cs = (s, rest) := by
  cases s with
  | newline =>
    obtain ⟨rfl, rfl⟩ := List.cons.inj whole
    rfl
  | blank b =>
    obtain ⟨rfl, rfl⟩ := List.cons.inj whole
    rcases fits with rfl | rfl | rfl <;> rfl
  | comment body =>
    obtain ⟨rfl, rfl⟩ := List.cons.inj whole
    exact first_comment fits.1 fits.2
  | arrow =>
    obtain ⟨rfl, rfl⟩ := List.cons.inj whole
    rfl
  | comma =>
    obtain ⟨rfl, rfl⟩ := List.cons.inj whole
    rfl
  | number digits =>
    obtain ⟨nonempty, inside, stop⟩ := fits
    obtain ⟨d, digits, rfl⟩ := List.exists_cons_of_ne_nil nonempty
    obtain ⟨rfl, rfl⟩ := List.cons.inj whole
    exact first_number inside stop
  | word letters =>
    obtain ⟨⟨d, head, letter⟩, inside, stop⟩ := fits
    obtain ⟨letters, rfl⟩ := List.head?_eq_some_iff.mp head
    obtain ⟨rfl, rfl⟩ := List.cons.inj whole
    exact first_word letter (List.forall_mem_cons.mp inside).2 stop
  | stray b =>
    obtain ⟨rfl, rfl⟩ := List.cons.inj whole
    obtain ⟨plain, digit, letter, slashes, sign⟩ := fits
    simp only [List.mem_cons, List.not_mem_nil, or_false, not_or] at plain
    obtain ⟨space, tab, carriage, newline, comma⟩ := plain
    simp only [first, isBlank]
    simp [space, tab, carriage, newline, comma, digit, letter, slashes, sign]

end Segment

theorem segments_append {s : Segment} {rest : List Char} (fits : s.Fits rest) :
    segments (s.text ++ rest) = s :: segments rest := by
  have nonempty : s.text ++ rest ≠ [] := List.append_ne_nil_of_left_ne_nil fits.text_ne_nil rest
  obtain ⟨c, cs, whole⟩ := List.exists_cons_of_ne_nil nonempty
  rw [whole, segments, fits.first_eq whole]

inductive Cut : List Segment → List Char → Prop where
  | nil : Cut [] []
  | cons {s : Segment} {segs : List Segment} {rest : List Char} :
      s.Fits rest → Cut segs rest → Cut (s :: segs) (s.text ++ rest)

theorem cut_segments (cs : List Char) : Cut (segments cs) cs := by
  fun_induction segments cs with
  | case1 => exact .nil
  | case2 c cs ih =>
    have cut := Cut.cons (Segment.first_fits c cs) ih
    rw [Segment.first_text] at cut
    exact cut

theorem Cut.eq_segments {segs : List Segment} {cs : List Char} (cut : Cut segs cs) :
    segs = segments cs := by
  induction cut with
  | nil => simp [segments]
  | cons fits _ ih => rw [segments_append fits, ih]

theorem Cut.exists_fits {segs : List Segment} {cs : List Char} (cut : Cut segs cs) :
    ∀ s ∈ segs, ∃ rest, s.Fits rest := by
  induction cut with
  | nil => simp
  | cons fits _ ih =>
    intro s member
    rcases List.mem_cons.mp member with rfl | member
    · exact ⟨_, fits⟩
    · exact ih s member

theorem Cut.text_ne_nil {segs : List Segment} {cs : List Char} (cut : Cut segs cs) :
    ∀ s ∈ segs, s.text ≠ [] := by
  intro s member
  obtain ⟨rest, fits⟩ := cut.exists_fits s member
  exact fits.text_ne_nil

theorem cut_iff {segs : List Segment} {cs : List Char} : Cut segs cs ↔ segs = segments cs :=
  ⟨Cut.eq_segments, fun same => same ▸ cut_segments cs⟩

end Iloc
