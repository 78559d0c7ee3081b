import Iloc.Analysis
import Iloc.Proofs.Numbering

namespace Iloc

def Segment.blanked (s : Segment) : Segment := if s.problem?.isSome then .blank ' ' else s

def blankReported (source : String) : String :=
  .ofList ((segments source.toList).flatMap fun s => s.blanked.text)

namespace Segment

theorem blanked_of_reported {s : Segment} (reported : s.problem?.isSome) : s.blanked = .blank ' ' :=
  if_pos reported

theorem blanked_of_quiet {s : Segment} (quiet : ¬ s.problem?.isSome) : s.blanked = s := if_neg quiet

theorem kind?_of_reported {s : Segment} (reported : s.problem?.isSome) : s.kind? = none := by
  cases s with
  | word letters =>
    cases kind : wordKind? letters with
    | none => exact kind
    | some named => simp [problem?, kind] at reported
  | stray c => rfl
  | _ => cases reported

theorem lineBreaks_of_reported {s : Segment} (reported : s.problem?.isSome) : s.lineBreaks = 0 := by
  cases s with
  | newline => cases reported
  | _ => rfl

@[simp]
theorem lineBreaks_blanked (s : Segment) : s.blanked.lineBreaks = s.lineBreaks := by
  by_cases reported : s.problem?.isSome
  · rw [blanked_of_reported reported, lineBreaks_of_reported reported]
    rfl
  · rw [blanked_of_quiet reported]

@[simp]
theorem token?_blanked (line : Nat) (s : Segment) : s.blanked.token? line = s.token? line := by
  by_cases reported : s.problem?.isSome
  · rw [blanked_of_reported reported, token?, token?, kind?_of_reported reported]
    rfl
  · rw [blanked_of_quiet reported]

@[simp]
theorem diagnostic?_blanked (line : Nat) (s : Segment) : s.blanked.diagnostic? line = none := by
  by_cases reported : s.problem?.isSome
  · rw [blanked_of_reported reported]
    rfl
  · rw [blanked_of_quiet reported, diagnostic?, Option.not_isSome_iff_eq_none.mp reported,
      Option.map_none]

theorem Fits.newline_notMem_of_reported {s : Segment} {rest : List Char} (fits : s.Fits rest)
    (reported : s.problem?.isSome) : '\n' ∉ s.text := by
  rw [← List.count_eq_zero, fits.count_newline, lineBreaks_of_reported reported]

/-- What stands before reported text ends at the space as it did at the text. -/
theorem Fits.blanked {s : Segment} {segs : List Segment} {rest : List Char} (fits : s.Fits rest)
    (cut : Cut segs rest) : s.blanked.Fits (segs.flatMap fun s => s.blanked.text) := by
  by_cases reported : s.problem?.isSome
  · rw [blanked_of_reported reported]
    exact .inl rfl
  rw [blanked_of_quiet reported]
  apply fits.of_head
  cases cut with
  | nil => exact .inl rfl
  | @cons r segs rest next cut =>
    rw [List.flatMap_cons]
    by_cases reported : r.problem?.isSome
    · have white : IsWhite ' ' := .inl rfl
      rw [blanked_of_reported reported]
      refine .inr ⟨' ', rfl, white.endedBy ?_⟩
      intro body comment
      rw [comment] at fits
      obtain ⟨c, cs, text⟩ := List.exists_cons_of_ne_nil next.text_ne_nil
      have newline : c = '\n' := fits.2 c (by rw [text]; rfl)
      have member : '\n' ∈ r.text := by
        rw [text, newline]
        exact List.mem_cons_self
      exact absurd member (next.newline_notMem_of_reported reported)
    · rw [blanked_of_quiet reported, List.head?_append_of_ne_nil _ next.text_ne_nil,
        List.head?_append_of_ne_nil _ next.text_ne_nil]
      exact .inl rfl

end Segment

theorem Cut.blanked {segs : List Segment} {cs : List Char} (cut : Cut segs cs) :
    Cut (segs.map Segment.blanked) (segs.flatMap fun s => s.blanked.text) := by
  induction cut with
  | nil => exact .nil
  | cons fits cut ih => exact .cons (fits.blanked cut) ih

theorem Scan.ofNumbered_blanked (line : Nat) (segs : List Segment) :
    ofNumbered (Segment.numbered line (segs.map Segment.blanked)) =
      ⟨(ofNumbered (Segment.numbered line segs)).tokens, []⟩ := by
  induction segs generalizing line with
  | nil => rfl
  | cons s segs ih =>
    rw [List.map_cons, Segment.numbered, Segment.numbered, ofNumbered_cons, ofNumbered_cons,
      Segment.lineBreaks_blanked, Segment.token?_blanked, Segment.diagnostic?_blanked, ih]
    rfl

theorem Scan.problems_ofNumbered (line : Nat) (segs : List Segment) :
    (ofNumbered (Segment.numbered line segs)).diagnostics.map Diagnostic.problem =
      segs.filterMap Segment.problem? := by
  induction segs generalizing line with
  | nil => rfl
  | cons s segs ih =>
    rw [Segment.numbered, ofNumbered_cons, List.map_append, ih, List.filterMap_cons,
      Segment.diagnostic?]
    cases s.problem? <;> rfl

theorem scan_blankReported (source : String) :
    scan (blankReported source) = ⟨(scan source).tokens, []⟩ := by
  have cut := (cut_segments source.toList).blanked
  rw [scan, blankReported, String.toList_ofList, ← cut.eq_segments, Scan.ofNumbered_blanked]
  rfl

/-- Text that the scan reports has no part in what is read around it: with a space in place of each
    reported piece, the source has the same tokens and instructions, and no diagnostics but those of the
    reading. -/
theorem blanking_keeps_tokens (source : String) :
    (scan source).diagnostics.map Diagnostic.problem =
        (segments source.toList).filterMap Segment.problem? ∧
      scan (blankReported source) = ⟨(scan source).tokens, []⟩ ∧
      (analyze (blankReported source)).nodes = (analyze source).nodes ∧
      (analyze (blankReported source)).diagnostics = (analyze source).program.diagnostics := by
  have scanned := scan_blankReported source
  refine ⟨Scan.problems_ofNumbered 1 _, scanned, ?_, ?_⟩
  · unfold analyze
    rw [scanned]
    rfl
  · unfold analyze
    rw [scanned]
    rfl

example : blankReported "add r1 ; r2==>r3\n1²3 foo4/" = "add r1   r2 =>r3\n1 3   " := by
  decide +kernel

end Iloc
