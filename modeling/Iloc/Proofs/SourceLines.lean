import Iloc.Proofs.Concatenation
import Iloc.Proofs.ScannedTokens
import Iloc.Proofs.TextLines
import Mathlib.Data.List.DropRight

namespace Iloc

def lastLine (text : String) : List Char := text.toList.rtakeWhile (· ≠ '\n')

def Scan.ofLines (passed : Nat) : List (List Char) → Scan
  | [] => ⟨[], []⟩
  | line :: rest => (scan (.ofList line)).renumber (· + passed) ++ ofLines (passed + 1) rest

/-- A text is a last line, or a line, a newline and a text. -/
theorem line_induction {P : String → Prop} (last : ∀ line, Unbroken line → P line)
    (next : ∀ line rest, Unbroken line → P rest → P (line ++ "\n" ++ rest)) (text : String) :
    P text := by
  have read : ∀ cs before, '\n' ∉ before → P (.ofList (before ++ cs)) := by
    intro cs
    induction cs with
    | nil =>
      intro before unbroken
      apply last
      simpa [Unbroken] using unbroken
    | cons c cs ih =>
      intro before unbroken
      by_cases newline : c = '\n'
      · have parts : String.ofList (before ++ c :: cs) =
            .ofList before ++ "\n" ++ .ofList ([] ++ cs) := by
          rw [← String.toList_inj]
          simp [newline]
        rw [parts]
        apply next
        · simpa [Unbroken] using unbroken
        · exact ih [] (List.not_mem_nil)
      · have longer : '\n' ∉ before ++ [c] := by simp [unbroken, Ne.symm newline]
        rw [List.append_cons]
        exact ih (before ++ [c]) longer
  have whole := read text.toList [] List.not_mem_nil
  simpa using whole

theorem splitOn_line_append {line : String} (unbroken : Unbroken line) (rest : String) :
    (line ++ "\n" ++ rest).toList.splitOn '\n' = line.toList :: rest.toList.splitOn '\n' := by
  have text : (line ++ "\n" ++ rest).toList = line.toList ++ '\n' :: rest.toList := by simp
  rw [text, List.splitOn_append_cons_self_of_not_mem unbroken]

theorem scan_line_append {line : String} (unbroken : Unbroken line) (rest : String) :
    scan (line ++ "\n" ++ rest) = scan line ++ (scan rest).renumber (· + 1) := by
  have after : lineAfter line = (· + 1) := by
    funext n
    rw [lineAfter, unbroken_iff_count.mp unbroken]
  rw [scan_append_newline, after]

theorem line_of_mem_scan_line {line : String} (unbroken : Unbroken line) :
    ∀ t ∈ (scan line).tokens, t.line = 1 := by
  intro t member
  have scanned := scannedTokens_scan line
  rw [unbroken_iff_count.mp unbroken] at scanned
  exact Nat.le_antisymm (scanned.upper t member) (scanned.lower t member)

theorem scan_eq_ofLines (passed : Nat) (source : String) :
    (scan source).renumber (· + passed) = .ofLines passed (source.toList.splitOn '\n') := by
  induction source using line_induction generalizing passed with
  | last line unbroken =>
    rw [List.splitOn_eq_singleton unbroken, Scan.ofLines, Scan.ofLines, Scan.append_empty,
      String.ofList_toList]
  | next line rest unbroken ih =>
    have later : (fun n => n + 1 + passed) = (· + (passed + 1)) := by
      funext n
      omega
    rw [scan_line_append unbroken, splitOn_line_append unbroken, Scan.renumber_append,
      Scan.renumber_renumber, later, ih, Scan.ofLines, String.ofList_toList]

theorem suffix_lastLine {source : String} {text : List Char} (ends : text <:+ source.toList)
    (unbroken : '\n' ∉ text) : text <:+ lastLine source := by
  obtain ⟨before, whole⟩ := ends
  have run : ∀ c ∈ text.reverse, decide (c ≠ '\n') = true := by
    intro c member
    rw [List.mem_reverse] at member
    exact decide_eq_true fun same => unbroken (same ▸ member)
  rw [lastLine, ← whole, List.rtakeWhile, List.reverse_append, List.takeWhile_append_of_pos run,
    List.reverse_append, List.reverse_reverse]
  exact List.suffix_append _ _

/-- A text that ends inside a comment has the comment's slashes on its last line. -/
theorem slashes_infix_lastLine {source : String} {body : List Char}
    (last : (segments source.toList).getLast? = some (.comment body)) :
    ['/', '/'] <:+: lastLine source := by
  obtain ⟨before, parts⟩ := List.getLast?_eq_some_iff.mp last
  have text := segments_text source.toList
  rw [parts, List.flatMap_append, List.flatMap_singleton] at text
  obtain ⟨rest, inside, -⟩ := (cut_segments source.toList).exists_fits (.comment body) (by simp [parts])
  have ends : '/' :: '/' :: body <:+ lastLine source := by
    apply suffix_lastLine ⟨_, text⟩
    simpa [Segment.text] using inside
  exact List.IsInfix.trans ⟨[], body, rfl⟩ ends.isInfix

/-- Scanning splits at white space: a newline ends whatever stands before it, and any other white space
    ends whatever does not stand on a line with a comment. What comes after is scanned as a text of its
    own, with its lines counted on, so that a source can be scanned one line at a time. -/
theorem scanning_splits_at_white :
    (∀ a b : String,
      scan (a ++ "\n" ++ b) = scan a ++ (scan b).renumber (· + (1 + a.toList.count '\n'))) ∧
    (∀ (a b : String) (w : Char), w = ' ' ∨ w = '\t' ∨ w = '\r' → ¬ ['/', '/'] <:+: lastLine a →
      scan (a ++ String.singleton w ++ b) = scan a ++ (scan b).renumber (· + a.toList.count '\n')) ∧
    ∀ source : String, scan source = .ofLines 0 (source.toList.splitOn '\n') := by
  refine ⟨scan_append_newline, ?_, ?_⟩
  · intro a b w blank plain
    have white : IsWhite w := by
      rcases blank with rfl | rfl | rfl <;> decide
    have count : (a.toList ++ [w]).count '\n' = a.toList.count '\n' := by
      rcases blank with rfl | rfl | rfl <;> simp
    have closed : ∀ body, (segments a.toList).getLast? = some (.comment body) → w = '\n' := by
      intro body last
      exact absurd (slashes_infix_lastLine last) plain
    rw [scan_append_white a b white closed, count]
  · intro source
    rw [← scan_eq_ofLines]
    exact (Scan.renumber_id _).symm

/-- The comment on the first line does not reach the tab, and the tab keeps `=` and `>` apart. -/
theorem scanning_splits_at_tab :
    ('\t' = ' ' ∨ '\t' = '\t' ∨ '\t' = '\r') ∧ ¬ ['/', '/'] <:+: lastLine "nop //\nadd 12=" ∧
      scan ("nop //\nadd 12=" ++ String.singleton '\t' ++ ">34\nr5") =
        ⟨[⟨1, .opcode, "nop"⟩, ⟨1, .comment, "//"⟩, ⟨2, .opcode, "add"⟩, ⟨2, .constant, "12"⟩,
            ⟨2, .constant, "34"⟩, ⟨3, .register, "r5"⟩],
          [⟨.number 2, .unexpectedCharacter '='⟩, ⟨.number 2, .unexpectedCharacter '>'⟩]⟩ := by
  have tab : '\t' = ' ' ∨ '\t' = '\t' ∨ '\t' = '\r' := by decide
  have plain : ¬ ['/', '/'] <:+: lastLine "nop //\nadd 12=" := by decide +kernel
  have before : scan "nop //\nadd 12=" =
      ⟨[⟨1, .opcode, "nop"⟩, ⟨1, .comment, "//"⟩, ⟨2, .opcode, "add"⟩, ⟨2, .constant, "12"⟩],
        [⟨.number 2, .unexpectedCharacter '='⟩]⟩ := by
    decide +kernel
  have after : scan ">34\nr5" = ⟨[⟨1, .constant, "34"⟩, ⟨2, .register, "r5"⟩],
      [⟨.number 1, .unexpectedCharacter '>'⟩]⟩ := by
    decide +kernel
  have split := scanning_splits_at_white.2.1 "nop //\nadd 12=" ">34\nr5" '\t' tab plain
  rw [before, after] at split
  exact ⟨tab, plain, split⟩

end Iloc
