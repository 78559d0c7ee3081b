import Iloc.Proofs.ReportLines

namespace Iloc

def Diagnostic.heading : String := "Error on line "

open Diagnostic (heading)

theorem Diagnostic.startsWith_text (d : Diagnostic) : d.text.startsWith heading = true := by
  have whole : d.text = heading ++ d.line.text ++ ": " ++ d.message := rfl
  rw [String.startsWith_string_iff, whole, String.append_assoc, String.append_assoc,
    String.toList_append]
  exact List.prefix_append _ _

theorem startsWith_heading_of_head {line : String} (head : ∀ c ∈ line.toList.head?, c ≠ 'E') :
    line.startsWith heading = false := by
  rw [String.startsWith_string_eq_false_iff]
  intro begins
  obtain ⟨rest, same⟩ := begins
  apply head 'E' _ rfl
  rw [← same]
  rfl

theorem startsWith_heading_numbered (n : Nat) (rest : String) :
    (toString n ++ rest).startsWith heading = false := by
  obtain ⟨nonempty, digits⟩ := digits_toString n
  obtain ⟨d, ds, same⟩ := List.exists_cons_of_ne_nil nonempty
  have digit : d.isDigit = true := digits d (by rw [same]; exact List.mem_cons_self)
  apply startsWith_heading_of_head
  intro c head letter
  rw [String.toList_append, same, List.cons_append, List.head?_cons, Option.mem_some_iff] at head
  rw [head, letter] at digit
  exact absurd digit (by decide)

theorem Token.startsWith_text (t : Token) : t.text.startsWith heading = false := by
  simp only [text, String.append_assoc]
  exact startsWith_heading_numbered _ _

theorem Node.startsWith_lines (n : Node) : ∀ line ∈ n.lines, line.startsWith heading = false := by
  rw [lines, List.forall_mem_cons]
  constructor
  · apply startsWith_heading_of_head
    simp [header]
  · intro line member
    obtain ⟨labelled, -, rfl⟩ := List.mem_map.mp member
    apply startsWith_heading_of_head
    simp [operandLine]

theorem Table.Row.startsWith_text (n : Node) (layout : Layout) :
    ((ofNode n).text layout).startsWith heading = false := by
  simp only [text, pad, ofNode, String.append_assoc]
  exact startsWith_heading_numbered _ _

theorem Report.startsWith_listed {mode : Mode} {asTable : Bool} {nodes : List Node} :
    ∀ line ∈ listed mode asTable nodes, line.startsWith heading = false := by
  apply forall_listed
  · apply startsWith_heading_of_head
    simp
  · intro n _ layout
    exact Table.Row.startsWith_text n layout
  · intro n _
    exact n.startsWith_lines

/-- Diagnostics come first, so that the first line tells whether there are any. -/
theorem startsWith_heading_unlines (reports : List Diagnostic) {others : List String}
    (plain : ∀ line ∈ others, line.startsWith heading = false) :
    (unlines (reports.map Diagnostic.text ++ others)).startsWith heading = !reports.isEmpty := by
  rw [startsWith_unlines (by decide) (by decide)]
  cases reports with
  | nil =>
    cases others with
    | nil => rfl
    | cons line others => exact plain line List.mem_cons_self
  | cons d reports => exact d.startsWith_text

section Modes

variable {mode : Mode} {asTable : Bool} {source : String}

theorem accepted_report_of_ne_scan (other : mode ≠ .scan) :
    (report mode asTable source).accepted = (analyze source).accepted := by
  rw [Report.report_eq_ofAnalysis other]
  rfl

theorem accepted_scan_of_analyze (accepted : (analyze source).accepted = true) :
    (report .scan asTable source).accepted = true := by
  simp only [Analysis.accepted, Analysis.diagnostics, List.isEmpty_iff, List.append_eq_nil_iff] at accepted
  exact List.isEmpty_iff.mpr accepted.1

theorem filter_heading_scan (asTable : Bool) (source : String) :
    (linesOf (report .scan asTable source).output).filter (·.startsWith heading) =
      (scan source).diagnostics.map Diagnostic.text := by
  have reports : ((scan source).diagnostics.map Diagnostic.text).filter (·.startsWith heading) =
      (scan source).diagnostics.map Diagnostic.text := by
    apply List.filter_eq_self.mpr
    exact List.forall_mem_map.mpr fun d _ => d.startsWith_text
  have tokens : ((scan source).tokens.map Token.text).filter (·.startsWith heading) = [] := by
    apply List.filter_eq_nil_iff.mpr
    exact List.forall_mem_map.mpr fun t _ => Bool.eq_false_iff.mp t.startsWith_text
  rw [Report.linesOf_scan, List.filter_append, reports, tokens, List.append_nil]

theorem startsWith_heading_report (mode : Mode) (asTable : Bool) (source : String) :
    (report mode asTable source).output.startsWith heading =
      !(report mode asTable source).accepted := by
  by_cases other : mode = .scan
  · subst other
    apply startsWith_heading_unlines
    intro line member
    obtain ⟨t, -, rfl⟩ := List.mem_map.mp member
    exact t.startsWith_text
  · rw [accepted_report_of_ne_scan other]
    cases accepted : (analyze source).accepted with
    | true =>
      rw [(Report.linesOf_accepted asTable other accepted).1]
      exact startsWith_heading_unlines [] Report.startsWith_listed
    | false =>
      have several : (analyze source).diagnostics.isEmpty = false := accepted
      have begins := startsWith_heading_unlines (analyze source).diagnostics (List.forall_mem_nil _)
      rw [List.append_nil, several] at begins
      rw [(Report.linesOf_rejected asTable other accepted).1]
      exact begins

theorem startsWith_heading_of_mem_linesOf (other : mode ≠ .scan) :
    ∀ line ∈ linesOf (report mode asTable source).output,
      line.startsWith heading = !(report mode asTable source).accepted := by
  rw [accepted_report_of_ne_scan other]
  intro line member
  cases accepted : (analyze source).accepted with
  | true =>
    rw [(Report.linesOf_accepted asTable other accepted).2] at member
    exact Report.startsWith_listed line member
  | false =>
    rw [(Report.linesOf_rejected asTable other accepted).2] at member
    obtain ⟨d, -, rfl⟩ := List.mem_map.mp member
    exact d.startsWith_text

theorem report_eq_of_plain (plain : mode ≠ .ir ∨ (analyze source).accepted = false) :
    report mode true source = report mode false source := by
  cases mode with
  | scan => rfl
  | parse => rfl
  | ir =>
    rcases plain with other | rejected
    · exact absurd rfl other
    · simp [report, Report.ofAnalysis, rejected]

/-- The modes that parse agree on every source. They reject it in the same words, which begin with those
    that scan mode has for it; and how an output begins tells whether the source is accepted. -/
theorem modes_agree (source : String) :
    (∀ asTable asTable',
      (report .parse asTable source).accepted = (report .ir asTable' source).accepted ∧
        ((report .ir asTable' source).accepted = true →
          (report .scan asTable source).accepted = true)) ∧
    (∀ mode ≠ .scan, ∀ asTable, (report mode asTable source).accepted = false →
      (report mode asTable source).output =
          unlines ((analyze source).diagnostics.map Diagnostic.text) ∧
        linesOf (report mode asTable source).output =
          (analyze source).diagnostics.map Diagnostic.text ∧
        ∀ asTable', linesOf (report mode asTable source).output =
          (linesOf (report .scan asTable' source).output).filter (·.startsWith heading) ++
            (analyze source).program.diagnostics.map Diagnostic.text) ∧
    (∀ mode asTable, (report mode asTable source).accepted = false ↔
      (report mode asTable source).output.startsWith heading = true) ∧
    (∀ mode ≠ .scan, ∀ asTable, ∀ line ∈ linesOf (report mode asTable source).output,
      line.startsWith heading = !(report mode asTable source).accepted) ∧
    ∀ mode, report mode true source ≠ report mode false source →
      mode = .ir ∧ (report mode true source).accepted = true := by
  refine ⟨?_, ?_, ?_, ?_, ?_⟩
  · intro asTable asTable'
    exact ⟨rfl, accepted_scan_of_analyze⟩
  · intro mode other asTable rejected
    rw [accepted_report_of_ne_scan other] at rejected
    obtain ⟨output, lines⟩ := Report.linesOf_rejected asTable other rejected
    refine ⟨output, lines, ?_⟩
    intro asTable'
    rw [lines, filter_heading_scan, ← List.map_append]
    rfl
  · intro mode asTable
    rw [startsWith_heading_report, Bool.not_eq_true']
  · intro mode other asTable
    exact startsWith_heading_of_mem_linesOf other
  · intro mode differ
    by_cases ir : mode = .ir
    · subst ir
      refine ⟨rfl, ?_⟩
      cases accepted : (analyze source).accepted with
      | true => exact accepted
      | false => exact absurd (report_eq_of_plain (.inr accepted)) differ
    · exact absurd (report_eq_of_plain (.inl ir)) differ

end Modes

end Iloc
