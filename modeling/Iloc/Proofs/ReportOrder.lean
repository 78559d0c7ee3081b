import Iloc.Proofs.Numbering
import Iloc.Proofs.Printing

namespace Iloc

def Line.le : Line → Line → Prop
  | .number m, .number n => m ≤ n
  | .eof, .number _ => False
  | _, .eof => True

instance : LE Line := ⟨Line.le⟩

theorem Line.le_eof (l : Line) : l ≤ .eof := by
  cases l <;> exact True.intro

theorem Line.le_refl (l : Line) : l ≤ l := by
  cases l with
  | number n => exact Nat.le_refl n
  | eof => exact True.intro

theorem Line.le_trans {k l m : Line} (first : k ≤ l) (second : l ≤ m) : k ≤ m := by
  cases m with
  | eof => exact k.le_eof
  | number n =>
    cases l with
    | eof => cases second
    | number j =>
      cases k with
      | eof => cases first
      | number i => exact Nat.le_trans first second

namespace Diagnostic

def Ordered (reports : List Diagnostic) : Prop := reports.Pairwise fun d e => d.line ≤ e.line

def numbered (reports : List Diagnostic) : List Diagnostic := reports.filter (·.line ≠ .eof)

def atEnd (reports : List Diagnostic) : List Diagnostic := reports.filter (·.line = .eof)

theorem numbered_eq_nil_iff {reports : List Diagnostic} :
    numbered reports = [] ↔ ∀ d ∈ reports, d.line = .eof := by
  simp [numbered, List.filter_eq_nil_iff]

theorem numbered_eq_self_iff {reports : List Diagnostic} :
    numbered reports = reports ↔ ∀ d ∈ reports, d.line ≠ .eof := by
  simp [numbered, List.filter_eq_self]

theorem atEnd_eq_self_iff {reports : List Diagnostic} :
    atEnd reports = reports ↔ ∀ d ∈ reports, d.line = .eof := by
  simp [atEnd, List.filter_eq_self]

theorem atEnd_eq_nil_iff {reports : List Diagnostic} :
    atEnd reports = [] ↔ ∀ d ∈ reports, d.line ≠ .eof := by
  simp [atEnd, List.filter_eq_nil_iff]

end Diagnostic

open Diagnostic (Ordered numbered atEnd)

/-- Reports of a reader who goes over the tokens and never back: each points at the token that is next,
    or at the end of the text if there is none. -/
inductive PointsAlong : List Token → List Diagnostic → Prop where
  | nil {tokens : List Token} : PointsAlong tokens []
  | here {tokens : List Token} {problem : Problem} {reports : List Diagnostic} :
      PointsAlong tokens reports → PointsAlong tokens (⟨.ofHead tokens, problem⟩ :: reports)
  | next {t : Token} {rest : List Token} {reports : List Diagnostic} :
      PointsAlong rest reports → PointsAlong (t :: rest) reports

namespace PointsAlong

variable {tokens : List Token} {reports : List Diagnostic}

theorem ordered (points : PointsAlong tokens reports)
    (sorted : tokens.Pairwise fun t u => t.line ≤ u.line) :
    Ordered reports ∧ ∀ d ∈ reports, Line.ofHead tokens ≤ d.line := by
  induction points with
  | nil => exact ⟨.nil, by simp⟩
  | here _ ih =>
    obtain ⟨ordered, above⟩ := ih sorted
    exact ⟨.cons above ordered, List.forall_mem_cons.mpr ⟨Line.le_refl _, above⟩⟩
  | @next t rest reports _ ih =>
    obtain ⟨below, sorted⟩ := List.pairwise_cons.mp sorted
    obtain ⟨ordered, above⟩ := ih sorted
    refine ⟨ordered, fun d member => Line.le_trans ?_ (above d member)⟩
    cases rest with
    | nil => exact Line.le_eof _
    | cons u rest => exact below u List.mem_cons_self

theorem line_cases (points : PointsAlong tokens reports) :
    ∀ d ∈ reports, d.line = .eof ∨ ∃ t ∈ tokens, d.line = .number t.line := by
  induction points with
  | nil => simp
  | @here tokens problem reports _ ih =>
    refine List.forall_mem_cons.mpr ⟨?_, ih⟩
    cases tokens with
    | nil => exact .inl rfl
    | cons t rest => exact .inr ⟨t, List.mem_cons_self, rfl⟩
  | next _ ih =>
    intro d member
    rcases ih d member with eof | ⟨t, held, line⟩
    · exact .inl eof
    · exact .inr ⟨t, List.mem_cons_of_mem _ held, line⟩

theorem line_eq_eof (points : PointsAlong [] reports) : ∀ d ∈ reports, d.line = .eof := by
  intro d member
  simpa using points.line_cases d member

theorem eq_numbered_append_atEnd (points : PointsAlong tokens reports) :
    reports = numbered reports ++ atEnd reports := by
  induction points with
  | nil => rfl
  | @here tokens problem reports points ih =>
    cases tokens with
    | nil =>
      -- Nothing is left to point at from here on.
      have ended : ∀ d ∈ (⟨.eof, problem⟩ : Diagnostic) :: reports, d.line = .eof :=
        List.forall_mem_cons.mpr ⟨rfl, points.line_eq_eof⟩
      rw [Line.ofHead, Diagnostic.numbered_eq_nil_iff.mpr ended,
        Diagnostic.atEnd_eq_self_iff.mpr ended, List.nil_append]
    | cons t rest =>
      conv_lhs => rw [ih]
      rfl
  | next _ ih => exact ih

theorem append_fill (slots : List Slot) (points : PointsAlong (fill slots tokens).rest reports) :
    PointsAlong tokens ((fill slots tokens).diagnostics ++ reports) := by
  fun_induction fill slots tokens with
  | case1 tokens => exact points
  | case2 slot slots ih => exact .here (ih points)
  | case3 slot slots t rest same ih =>
    rw [Filling.rest_taken] at points
    rw [Filling.diagnostics_taken]
    exact .next (ih points)
  | case4 slot slots t rest other ih => exact .here (ih points)

theorem append_start {t : Token} {rest : List Token}
    (points : PointsAlong (Program.start t rest).2 reports) :
    PointsAlong (t :: rest) ((Program.start t rest).1.diagnostics ++ reports) := by
  rcases Program.start_cases t rest with ⟨-, step⟩ | ⟨-, -, step⟩ | ⟨op, -, -, step⟩
  · rw [step] at points ⊢
    exact .here (.next points)
  · rw [step] at points ⊢
    exact .here (.next points)
  · rw [step] at points ⊢
    exact .next (append_fill op.slots points)

end PointsAlong

theorem pointsAlong_ofTokens (tokens : List Token) :
    PointsAlong tokens (Program.ofTokens tokens).diagnostics := by
  fun_induction Program.ofTokens tokens with
  | case1 => exact .nil
  | case2 t rest ih => exact .append_start ih

structure LastOpcode (tokens : List Token) (t : Token) (rest : List Token) : Prop where
  opcode : t.kind = .opcode
  plain : ∀ u ∈ rest, u.kind ≠ .opcode
  suffix : t :: rest <:+ tokens

theorem line_ne_eof_of_fill {slots : List Slot} {tokens : List Token}
    (left : (fill slots tokens).rest ≠ []) : ∀ d ∈ (fill slots tokens).diagnostics, d.line ≠ .eof := by
  fun_induction fill slots tokens with
  | case1 tokens => simp [Filling.done]
  | case2 slot slots ih => exact absurd (List.suffix_nil.mp (fill_rest_suffix slots [])) left
  | case3 slot slots t rest same ih =>
    rw [Filling.rest_taken] at left
    rw [Filling.diagnostics_taken]
    exact ih left
  | case4 slot slots t rest other ih =>
    rw [Filling.diagnostics_missed]
    exact List.forall_mem_cons.mpr ⟨by simp, ih left⟩

namespace Program

theorem line_ne_eof_of_start {t : Token} {rest : List Token}
    (continues : t.kind ≠ .opcode ∨ (start t rest).2 ≠ []) :
    ∀ d ∈ (start t rest).1.diagnostics, d.line ≠ .eof := by
  rcases start_cases t rest with ⟨-, step⟩ | ⟨-, -, step⟩ | ⟨op, opcode, -, step⟩
  · simp [step, report]
  · simp [step, report]
  · rw [step] at continues ⊢
    exact line_ne_eof_of_fill (continues.resolve_left fun other => other opcode)

theorem length_diagnostics_start (t : Token) (rest : List Token) :
    (start t rest).1.diagnostics.length ≤ 5 := by
  rcases start_cases t rest with ⟨-, step⟩ | ⟨-, -, step⟩ | ⟨op, -, -, step⟩
  · simp [step, report]
  · simp [step, report]
  · have most : op.slots.length ≤ 5 := by cases op <;> simp [Opcode.slots]
    have balance := length_diagnostics_fill op.slots rest
    have left := (fill_rest_suffix op.slots rest).length_le
    rw [step]
    show (fill op.slots rest).diagnostics.length ≤ 5
    omega

/-- The tokens can end only while the last instruction is read. -/
theorem atEnd_ofTokens (tokens : List Token) :
    (∀ d ∈ (ofTokens tokens).diagnostics, d.line ≠ .eof) ∨
    ∃ t rest earlier, LastOpcode tokens t rest ∧
      (ofTokens tokens).diagnostics = earlier ++ (start t rest).1.diagnostics ∧
      ∀ d ∈ earlier, d.line ≠ .eof := by
  fun_induction ofTokens tokens with
  | case1 => exact .inl (by simp [empty])
  | case2 t rest ih =>
    obtain ⟨taken, whole, fits⟩ := exists_taken t rest
    rw [diagnostics_append]
    by_cases last : t.kind = .opcode ∧ (start t rest).2 = []
    · obtain ⟨opcode, last⟩ := last
      rw [last, List.append_nil] at whole
      rw [last, ofTokens_nil]
      refine .inr ⟨t, rest, [], ⟨opcode, ?_, List.suffix_refl _⟩, List.append_nil _, by simp⟩
      rw [whole]
      exact fun u held => (fits u held).kind_ne_opcode
    · have here : ∀ d ∈ (start t rest).1.diagnostics, d.line ≠ .eof :=
        line_ne_eof_of_start (not_and_or.mp last)
      rcases ih with later | ⟨u, after, earlier, found, same, before⟩
      · exact .inl (List.forall_mem_append.mpr ⟨here, later⟩)
      · have suffix : u :: after <:+ t :: rest :=
          (found.suffix.trans (start_rest_suffix t rest)).trans (List.suffix_cons t rest)
        refine .inr ⟨u, after, (start t rest).1.diagnostics ++ earlier,
          ⟨found.opcode, found.plain, suffix⟩, ?_, List.forall_mem_append.mpr ⟨here, before⟩⟩
        rw [same, List.append_assoc]

theorem ordered_ofTokens {tokens : List Token} (sorted : tokens.Pairwise fun t u => t.line ≤ u.line) :
    (ofTokens tokens).nodes.Pairwise (fun n m => n.line ≤ m.line) ∧
      Ordered (ofTokens tokens).diagnostics := by
  refine ⟨?_, ((pointsAlong_ofTokens tokens).ordered sorted).1⟩
  have lines := (List.pairwise_map.mpr sorted).sublist (lines_sublist tokens)
  exact List.pairwise_map.mp lines

theorem length_atEnd_ofTokens (tokens : List Token) :
    (atEnd (ofTokens tokens).diagnostics).length ≤ 5 := by
  rcases atEnd_ofTokens tokens with none | ⟨t, rest, earlier, -, same, before⟩
  · rw [Diagnostic.atEnd_eq_nil_iff.mpr none]
    exact Nat.zero_le 5
  · have last : atEnd (ofTokens tokens).diagnostics = atEnd (start t rest).1.diagnostics := by
      rw [same, atEnd, List.filter_append, ← atEnd, Diagnostic.atEnd_eq_nil_iff.mpr before,
        List.nil_append]
      rfl
    rw [last]
    exact Nat.le_trans (List.length_filter_le _ _) (length_diagnostics_start t rest)

end Program

def IsLineOf (source : String) (n : Nat) : Prop := 1 ≤ n ∧ n ≤ 1 + source.toList.count '\n'

theorem ordered_scan (source : String) :
    Ordered (scan source).diagnostics ∧
      ∀ d ∈ (scan source).diagnostics, ∃ n, d.line = .number n ∧ IsLineOf source n := by
  have count := (cut_segments source.toList).count_newline
  have lines := Scan.lines_sublist (Segment.numbered 1 (segments source.toList))
  obtain ⟨ordered, bounds⟩ := Segment.ordered_numbered 1 (segments source.toList)
  refine ⟨?_, ?_⟩
  · have sorted : ((Segment.numbered 1 (segments source.toList)).map fun p => Line.number p.1).Pairwise
        (· ≤ ·) := List.pairwise_map.mpr ordered
    exact List.pairwise_map.mp (sorted.sublist lines)
  · intro d member
    obtain ⟨p, held, line⟩ := List.mem_map.mp (lines.subset (List.mem_map_of_mem member))
    obtain ⟨low, high⟩ := bounds p held
    rw [← count] at high
    exact ⟨p.1, line.symm, low, high⟩

theorem isLineOf_of_mem_analyze {source : String} {d : Diagnostic}
    (member : d ∈ (analyze source).diagnostics) {n : Nat} (line : d.line = .number n) :
    IsLineOf source n := by
  rcases List.mem_append.mp member with member | member
  · obtain ⟨m, same, within⟩ := (ordered_scan source).2 d member
    obtain rfl := Line.number.inj (same.symm.trans line)
    exact within
  · have scanned := scannedTokens_withoutComments source
    rcases (pointsAlong_ofTokens _).line_cases d member with eof | ⟨t, held, same⟩
    · rw [line] at eof
      cases eof
    · obtain rfl := Line.number.inj (same.symm.trans line)
      exact ⟨scanned.lower t held, scanned.upper t held⟩

open Program (parse start)

/-- Nodes and reports keep the order of the lines. What is reported at the end of the text comes last and
    from the last instruction alone. Scanning a text reports line by line, and then reading it does; no
    line is named that the text does not have. -/
theorem reports_run_forward :
    (∀ tokens : List Token, tokens.Pairwise (fun t u => t.line ≤ u.line) →
      (parse tokens).nodes.Pairwise (fun n m => n.line ≤ m.line) ∧
        Ordered (parse tokens).diagnostics) ∧
    (∀ tokens : List Token,
      (parse tokens).diagnostics =
          numbered (parse tokens).diagnostics ++ atEnd (parse tokens).diagnostics ∧
        (atEnd (parse tokens).diagnostics).length ≤ 5 ∧
        (atEnd (parse tokens).diagnostics = [] ∨
          ∃ t rest earlier, LastOpcode (Token.withoutComments tokens) t rest ∧
            (parse tokens).diagnostics = earlier ++ (start t rest).1.diagnostics ∧
            atEnd earlier = [])) ∧
    ∀ source : String,
      (scan source).tokens.Pairwise (fun t u => t.line ≤ u.line) ∧
        (Ordered (scan source).diagnostics ∧ atEnd (scan source).diagnostics = []) ∧
        (Ordered (analyze source).program.diagnostics ∧
          (analyze source).diagnostics = (scan source).diagnostics ++
            (numbered (analyze source).program.diagnostics ++
              atEnd (analyze source).program.diagnostics)) ∧
        (∀ t ∈ (scan source).tokens, IsLineOf source t.line) ∧
        (∀ n ∈ (analyze source).nodes, IsLineOf source n.line) ∧
        ∀ d ∈ (analyze source).diagnostics, ∀ n, d.line = .number n → IsLineOf source n := by
  refine ⟨?_, ?_, ?_⟩
  · intro tokens sorted
    exact Program.ordered_ofTokens (sorted.sublist List.filter_sublist)
  · intro tokens
    refine ⟨(pointsAlong_ofTokens _).eq_numbered_append_atEnd, Program.length_atEnd_ofTokens _, ?_⟩
    rcases Program.atEnd_ofTokens (Token.withoutComments tokens) with none |
      ⟨t, rest, earlier, last, same, before⟩
    · exact .inl (Diagnostic.atEnd_eq_nil_iff.mpr none)
    · exact .inr ⟨t, rest, earlier, last, same, Diagnostic.atEnd_eq_nil_iff.mpr before⟩
  · intro source
    have scanned := scannedTokens_scan source
    obtain ⟨ordered, within⟩ := ordered_scan source
    have named : ∀ d ∈ (scan source).diagnostics, d.line ≠ .eof := by
      intro d member
      obtain ⟨n, line, -⟩ := within d member
      simp [line]
    have parsed := pointsAlong_ofTokens (Token.withoutComments (scan source).tokens)
    refine ⟨scanned.ordered, ⟨ordered, Diagnostic.atEnd_eq_nil_iff.mpr named⟩, ⟨?_, ?_⟩, ?_, ?_, ?_⟩
    · exact (parsed.ordered (scannedTokens_withoutComments source).ordered).1
    · exact congrArg ((scan source).diagnostics ++ ·) parsed.eq_numbered_append_atEnd
    · exact fun t member => ⟨scanned.lower t member, scanned.upper t member⟩
    · exact fun n member =>
        ⟨(allWellFormed_analyze source).positive n member, line_le_of_mem_analyze member⟩
    · exact fun d member n line => isLineOf_of_mem_analyze member line

end Iloc
